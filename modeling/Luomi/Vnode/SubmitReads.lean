import Mathlib.Algebra.Order.Ring.Int
import Mathlib.Data.List.Range

/-!
# What a submit message makes the vnode read (`vnodeShell.c`)

The bytes at and behind a received message are a function; the message is the first
`msgLen` of them.  A block has its header of 18 bytes and then its rows.  What is read is
collected in order: the offset and the size, and the row where a row of the payload is used.

What a block meets beside the message comes from outside: whether the meter is ready, whether
its cache has room, what the commit log does, what each row meets in the cache, and which rows
an import uses of the ones it is given.  The bytes that are written are left out.
-/

namespace Luomi.Vnode.SubmitReads

def sizeofShellSubmitMsg : Int := 8

def sizeofShellSubmitBlock : Int := 18

def htons (content : Int -> UInt8) (offset : Int) : Nat :=
  (content offset).toNat * 256 + (content (offset + 1)).toNat

def short (word : Nat) : Int := if word < 32768 then word else (word : Int) - 65536

def htonl (content : Int -> UInt8) (offset : Int) : Int :=
  let word := htons content offset * 65536 + htons content (offset + 2)
  if word < 2147483648 then word else (word : Int) - 4294967296

/-- A meter; its rows begin with their key. -/
structure SMeterObj where
  bytesPerPoint : Nat
  sversion : Int
  key : 8 ≤ bytesPerPoint

structure SVnodeObj where
  maxSessions : Int
  commitLog : Bool
  meterList : Int -> Option SMeterObj

structure Block where
  pos : Int
  numOfRows : Nat
  sversion : Int
  meter : SMeterObj

/-- Something that is read, and the row of the payload and the number of rows. -/
structure Use where
  offset : Int
  size : Int
  row : Option (Int × Nat)
  deriving DecidableEq

def bytes (offset size : Int) : Use := ⟨offset, size, none⟩

def Block.rowAt (block : Block) (row : Int) : Int :=
  block.pos + sizeofShellSubmitBlock + block.meter.bytesPerPoint * row

def Block.key (block : Block) (row : Int) : Use :=
  ⟨block.rowAt row, 8, some (row, block.numOfRows)⟩

def Block.whole (block : Block) (row : Int) : Use :=
  ⟨block.rowAt row, block.meter.bytesPerPoint, some (row, block.numOfRows)⟩

def Block.contLen (block : Block) : Int := 2 + block.numOfRows * block.meter.bytesPerPoint

/-- What a row meets: the meter is dropped, its key is not newer, its key is not valid or the
cache is full, or it is written. -/
inductive RowMeets where
  | dropped | older | stopped | inserted
  deriving DecidableEq

structure Meets where
  ready : Bool
  -- the batch is too big, or the cache is full
  refused : Bool
  logClosed : Bool
  logFails : Bool
  outOfRange : Bool
  -- for an import: its rows are newer, and are inserted
  newer : Bool
  outOfRangeLater : Bool
  deferred : Bool
  row : Nat -> RowMeets
  uses : Nat -> Bool

abbrev Reads := List Use × Bool

def andThen (first next : Reads) : Reads :=
  if first.2 then (first.1 ++ next.1, next.2) else first

def reading (uses : List Use) (goes : Bool) : Reads := (uses, goes)

/-- `vnodeWriteToCommitLog`, where there is a log. -/
def writeCommitLog (logs : Bool) (block : Block) (meets : Meets) : Reads :=
  if logs then
    if meets.logClosed then ([], false) else ([bytes (block.pos + 16) block.contLen], !meets.logFails)
  else ([], true)

/-- The loop of `vnodeInsertPoints` over rows. -/
def insertRows (block : Block) (meets : Meets) : List Nat -> Reads
  | [] => ([], true)
  | row :: rows =>
    match meets.row row with
    | .dropped => ([], false)
    | .older => andThen ([block.key row], true) (insertRows block meets rows)
    | .stopped => ([block.key row], false)
    | .inserted => andThen ([block.key row, block.whole row], true) (insertRows block meets rows)

def vnodeInsertPoints (logs : Bool) (sversion : Int) (outOfRange : Bool) (block : Block)
    (meets : Meets) : Reads :=
  let numOfPoints := short block.numOfRows
  andThen (reading [bytes (block.pos + 16) 2]
    (numOfPoints * block.meter.bytesPerPoint + 2 = block.contLen))
  <| andThen (reading [block.key 0] !meets.refused)
  <| andThen (writeCommitLog logs block meets)
  <| andThen (reading [] (¬ block.meter.sversion < sversion))
  <| andThen (reading [block.key 0, block.key (numOfPoints - 1)] !outOfRange)
  <| insertRows block meets (List.range numOfPoints.toNat)

/-- The rest of `vnodeImportPoints`, for rows that are not newer: they are copied for a timer, or
imported. -/
def importRows (block : Block) (meets : Meets) : Reads :=
  andThen (reading [block.key 0, block.key (block.numOfRows - 1)] true)
  <| if meets.deferred then
      ([bytes (block.pos + sizeofShellSubmitBlock) (block.contLen - 2)], true)
    else (((List.range block.numOfRows).filter meets.uses).map fun (row : Nat) => block.whole row, true)

/-- `vnodeImportPoints`; where it inserts, it returns 0 whatever comes of that. -/
def vnodeImportPoints (logs : Bool) (block : Block) (meets : Meets) : Reads :=
  let rows : Int := block.numOfRows
  andThen (reading [bytes (block.pos + 16) 2]
    (rows * block.meter.bytesPerPoint + 2 = block.contLen))
  <| andThen (reading [] (block.sversion = block.meter.sversion))
  <| andThen (reading [block.key 0, block.key (rows - 1)] !meets.outOfRange)
  <| andThen (writeCommitLog logs block meets)
  <| andThen (reading [block.key (rows - 1)] true)
  <| if meets.newer then
      ((vnodeInsertPoints false block.meter.sversion meets.outOfRangeLater block meets).1, true)
    else importRows block meets

def submitBlock (content : Int -> UInt8) (vnode : SVnodeObj) (isImport : Bool) (meets : Meets)
    (pos : Int) : Reads × Int :=
  let sid := htonl content pos
  let known := reading [bytes pos 4, bytes (pos + 8) 8]
  if vnode.maxSessions ≤ sid ∨ sid ≤ 0 then (known false, pos)
  else
    match vnode.meterList sid with
    | none => (known false, pos)
    | some meter =>
      let block : Block := ⟨pos, htons content (pos + 16), htonl content (pos + 4), meter⟩
      (andThen (known true) <| andThen (reading [bytes (pos + 16) 2, bytes (pos + 4) 4] meets.ready)
        <| if isImport then vnodeImportPoints vnode.commitLog block meets
          else vnodeInsertPoints vnode.commitLog block.sversion meets.outOfRange block meets,
        pos + sizeofShellSubmitBlock + block.numOfRows * meter.bytesPerPoint)

/-- The loop of `vnodeProcessShellSubmitRequest`. -/
def submitBlocks (content : Int -> UInt8) (vnode : SVnodeObj) (isImport : Bool)
    (meets : Nat -> Meets) : Nat -> Nat -> Int -> List Use
  | 0, _, _ => []
  | left + 1, i, pos =>
    let block := submitBlock content vnode isImport (meets i) pos
    block.1.1 ++
      if block.1.2 then submitBlocks content vnode isImport meets left (i + 1) block.2 else []

/-- `vnodeProcessShellSubmitRequest`; there is no vnode where the first checks refuse the message. -/
def vnodeProcessShellSubmitRequest (content : Int -> UInt8) (vnodeList : Int -> Option SVnodeObj)
    (meets : Nat -> Meets) : List Use :=
  let numOfSid := htonl content 4
  bytes 0 sizeofShellSubmitMsg ::
    if numOfSid ≤ 0 then []
    else
      match vnodeList (short (htons content 2)) with
      | none => []
      | some vnode =>
        submitBlocks content vnode (htons content 0 ≠ 0) meets numOfSid.toNat 0
          sizeofShellSubmitMsg

structure Inside (msgLen : Int) (use : Use) : Prop where
  ends : 0 < use.size -> use.offset + use.size ≤ msgLen
  row : ∀ row numOfRows, use.row = some (row, numOfRows) -> row < numOfRows

end Luomi.Vnode.SubmitReads
