import Luomi.Base.ByteBuffer

/-!
# The metric meta on the client

The reply with the meters of a super table is packed anew into one block: the header, a
table of offsets of the vnode lists, then every list with a table of offsets of its
entries.  The tables have eight bytes for each offset, of which an `int32_t` is used.
`tscGetVnodeSidList` and `tscGetMeterSidInfo` follow the offsets.
-/

namespace Luomi.Client.MetricMeta
open ByteBuffer

def TSDB_IE_TYPE_META : UInt8 := 2
def TSDB_CODE_INVALID_IE : Int := 23

def sizeofPointer : Nat := 8
def sizeofSMeterSidExtInfo : Nat := 12
def sizeofSVnodeSidList : Nat := 54
def sizeofSMetricMeta : Nat := 10

/-- A block of zero bytes; there is none of a negative size. -/
def calloc (size : Int) : Option (List UInt8) :=
  if 0 ≤ size then some (zeros size.toNat) else none

/-- The state of the loops: the next byte of the reply, the block and its next byte. -/
structure Packing where
  rsp : Int
  block : List UInt8
  pStr : Int

/-- The entry of one meter is moved into the list at `pLists`. -/
def moveSid (reply : List UInt8) (pLists : Int) (sidSize : Nat) (p : Packing) (j : Nat) :
    Option Packing := do
  let block <- store32 p.block (pLists + sizeofSVnodeSidList + 4 * j)
    (BitVec.ofInt 32 (p.pStr - pLists))
  let entry <- load reply p.rsp sidSize
  let block <- store block p.pStr entry
  some ⟨p.rsp + sidSize, block, p.pStr + sidSize⟩

def moveList (reply : List UInt8) (sidSize : Nat) (p : Packing) (i : Nat) : Option Packing := do
  let pSidLists <- load reply p.rsp sizeofSVnodeSidList
  let block <- store p.block p.pStr pSidLists
  let block <- store32 block (sizeofSMetricMeta + 4 * i) (BitVec.ofInt 32 p.pStr)
  let numOfSids <- load32 reply (p.rsp + 50)
  let pStr := p.pStr + sizeofSVnodeSidList + sizeofPointer * numOfSids.toInt
  (List.range numOfSids.toInt.toNat).foldlM (moveSid reply p.pStr sidSize)
    ⟨p.rsp + sizeofSVnodeSidList, block, pStr⟩

/-- `reply` is what follows the code in the response: `rspLen - 1` bytes. -/
def tscProcessMetricMetaRsp (reply : List UInt8) : Option (Except Int (List UInt8)) := do
  let ieType <- load reply 0 1
  if ieType ≠ [TSDB_IE_TYPE_META] then some (.error TSDB_CODE_INVALID_IE)
  else do
    let numOfMeters <- (load32 reply 1).map (reverseBytes 4)
    let numOfVnodes <- (load32 reply 5).map (reverseBytes 4)
    let tagLen <- (load16 reply 9).map (reverseBytes 2)
    let size := reply.length + numOfVnodes.toInt * sizeofPointer + numOfMeters.toInt * sizeofPointer
    let block <- calloc size
    let block <- store32 block 0 numOfMeters
    let block <- store32 block 4 numOfVnodes
    let block <- store16 block 8 tagLen
    let pStr := sizeofSMetricMeta + numOfVnodes.toInt * sizeofPointer
    let sidSize := sizeofSMeterSidExtInfo + tagLen.toNat
    let p <- (List.range numOfVnodes.toInt.toNat).foldlM (moveList reply sidSize)
      ⟨1 + sizeofSMetricMeta, block, pStr⟩
    some (.ok p.block)

def tscGetVnodeSidList (block : List UInt8) (vnodeIdx : Int) : Option Int := do
  let numOfMeters <- load32 block 0
  let numOfVnodes <- load32 block 4
  if numOfVnodes = 0 ∨ numOfMeters = 0 then none
  else do
    -- an illegal index is reset to 0
    let vnodeIdx := if vnodeIdx < 0 ∨ numOfVnodes.toInt ≤ vnodeIdx then 0 else vnodeIdx
    let offset <- load32 block (sizeofSMetricMeta + 4 * vnodeIdx)
    some offset.toInt

/-- The place in the block of an entry of the list at `pSidList`. -/
def tscGetMeterSidInfo (block : List UInt8) (pSidList idx : Int) : Option Int := do
  let numOfSids <- load32 block (pSidList + 50)
  let idx := if idx < 0 ∨ numOfSids.toInt ≤ idx then 0 else idx
  let offset <- load32 block (pSidList + sizeofSVnodeSidList + 4 * idx)
  some (pSidList + offset.toInt)

end Luomi.Client.MetricMeta
