import Luomi.Base.ByteBuffer

/-!
# The metric meta message

The management node answers a query of a super table with the child meters that meet its
conditions.  The meters are sorted by vgroup and streamed into the reply: the header of a
vnode list wherever the vgroup changes, then for every meter its session id and the
requested tags.  The counters in the message and in the list headers are kept in the
reply while it is written.

Structures are packed: `SMeterSidExtInfo` takes 12 bytes, `SVnodeSidList` 54 (`index` at
48, `numOfSids` at 50) and `SMetricMeta` 10 (`numOfMeters` at 0, `numOfVnodes` at 4,
`tagLen` at 8).  The number of meters fits a machine word of 64 bits, and the message size
is cut to 32 bits as in the source.
-/

namespace Luomi.Mgmt.MetricMetaMsg
open ByteBuffer

def TSDB_METER_NAME_LEN : Nat := 64
def TSDB_METER_ID_LEN : Nat := 117
def TSDB_MAX_TAGS : Nat := 6
def TS_PATH_DELIMITER : UInt8 := 46
def TSDB_IE_TYPE_META : UInt8 := 2
def TSDB_CODE_SUCCESS : UInt8 := 0
def INT32_MAX : Nat := 2147483647

def sizeofSMeterSidExtInfo : Nat := 12
def sizeofSVnodeSidList : Nat := 54
def sizeofSMetricMeta : Nat := 10

/-- A super table: the widths in bytes of its tag columns. -/
structure SMetric where
  tagBytes : List Nat
  short : ∀ bytes ∈ tagBytes, bytes < 2 ^ 15

/-- The tag columns a query asks for; -1 stands for the name of the meter. -/
structure SMetricMetaMsg (metric : SMetric) where
  tagCols : List Int
  few : tagCols.length ≤ TSDB_MAX_TAGS
  known : ∀ col ∈ tagCols, col = -1 ∨ 0 ≤ col ∧ col < metric.tagBytes.length

def skipSegments (delimiter : UInt8) : Nat -> List UInt8 -> List UInt8
  | 0, input => input
  | num + 1, input => skipSegments delimiter num ((input.dropWhile (· ≠ delimiter)).drop 1)

def copySegment (delimiter : UInt8) (src : List UInt8) : List UInt8 :=
  src.takeWhile (· ≠ delimiter)

def extractMeterName (meterId : List UInt8) : List UInt8 :=
  copySegment TS_PATH_DELIMITER (skipSegments TS_PATH_DELIMITER 2 meterId)

structure STabObj (metric : SMetric) where
  meterId : List UInt8
  vgId : Nat
  sid : BitVec 32
  pTagData : List UInt8
  named : (extractMeterName meterId).length ≤ TSDB_METER_NAME_LEN
  tagged : pTagData.length = TSDB_METER_ID_LEN + metric.tagBytes.sum

variable {metric : SMetric}

def mgmtGetTagsLength (metric : SMetric) (col : Nat) : Nat :=
  (metric.tagBytes.take col).sum

def mgmtMeterGetTag (meter : STabObj metric) (col : Nat) : List UInt8 :=
  (meter.pTagData.drop (mgmtGetTagsLength metric col + TSDB_METER_ID_LEN)).take
    (metric.tagBytes.getD col 0)

def reqTagLength (metric : SMetric) (col : Int) : Nat :=
  if col = -1 then TSDB_METER_NAME_LEN else metric.tagBytes.getD col.toNat 0

def mgmtGetReqTagsLength (msg : SMetricMetaMsg metric) : Nat :=
  (msg.tagCols.map (reqTagLength metric)).sum

def reqTag (meter : STabObj metric) (col : Int) : List UInt8 :=
  if col = -1 then
    let name := extractMeterName meter.meterId
    name ++ zeros (TSDB_METER_NAME_LEN - name.length)
  else mgmtMeterGetTag meter col.toNat

def reqTags (msg : SMetricMetaMsg metric) (meter : STabObj metric) : List (List UInt8) :=
  msg.tagCols.map (reqTag meter)

/-- `mgmtReorganizeMetersInMetricMeta`: the result list sorted by vgroup.  `qsort` leaves
the order of the meters of one vgroup open. -/
structure Reorganized (result : List (STabObj metric)) where
  meters : List (STabObj metric)
  same : meters.Perm result
  sorted : meters.Pairwise fun a b => a.vgId ≤ b.vgId

def countVnode (counted : Int × Nat) (meter : STabObj metric) : Int × Nat :=
  if counted.1 = -1 then (meter.vgId, counted.2 + 1)
  else if counted.1 ≠ meter.vgId then (meter.vgId, counted.2 + 1)
  else counted

section

variable (result : List (STabObj metric))

def mgmtGetNumOfVnodesInResult : Nat :=
  (result.foldl countVnode (-1, 0)).2

/-- The size before it is cut to an `int32_t`. -/
def metricMetaMsgSize (tagLength maxMetersPerQuery : Nat) : Nat :=
  (sizeofSMeterSidExtInfo + tagLength) * result.length +
    (result.length / maxMetersPerQuery + 1 + mgmtGetNumOfVnodesInResult result) *
      sizeofSVnodeSidList + sizeofSMetricMeta + 1024

def mgmtGetMetricMetaMsgSize (tagLength maxMetersPerQuery : Nat) : BitVec 32 :=
  BitVec.ofNat 32 (metricMetaMsgSize result tagLength maxMetersPerQuery)

end

def sizeofSMsgNode : Nat := 24
def sizeofSTaosHeader : Nat := 48
def sizeofSTaosDigest : Nat := 20

/-- The content of a new reply, after the header of the message.  A negative size is
refused by `malloc`, and no header is written to a block that has no room for it. -/
def taosBuildRspMsgWithSize (size : BitVec 32) : Option (List UInt8) :=
  let size := size + BitVec.ofNat 32 (sizeofSMsgNode + sizeofSTaosHeader + sizeofSTaosDigest)
  if size.toInt < sizeofSTaosHeader then none
  else some (zeros (size.toNat - sizeofSTaosHeader))

/-- Places of the counters in the reply: a code, an element type, then `SMetricMeta`. -/
def numOfMetersAt : Int := 2
def numOfVnodesAt : Int := 6
def tagLenAt : Int := 10

/-- The state of the loop: the reply, the next byte, the vgroup and the open list. -/
structure Writing where
  content : List UInt8
  pMsg : Nat
  ovgId : Int
  pList : Option Nat

def startsList (maxNumOfMeters : Nat) (w : Writing) (meter : STabObj metric) : Option Bool :=
  if (meter.vgId : Int) ≠ w.ovgId then some true
  else match w.pList with
    | none => some false
    | some pList =>
      (load32 w.content (pList + 50)).map fun numOfSids =>
        decide ((maxNumOfMeters : Int) ≤ numOfSids.toInt)

def startList (vnode : BitVec 32) (vgId : Nat) (w : Writing) : Option Writing := do
  let content <- store32 w.content (w.pMsg + 50) 0
  let content <- store16 content (w.pMsg + 48) 0
  let content <- increase content numOfVnodesAt
  let content <- store32 content (w.pMsg + 4) vnode
  some ⟨content, w.pMsg + sizeofSVnodeSidList, vgId, some w.pMsg⟩

def appendMeter (msg : SMetricMetaMsg metric) (tagLen : Nat) (w : Writing)
    (meter : STabObj metric) : Option Writing := do
  let pList <- w.pList
  let content <- increase w.content numOfMetersAt
  let content <- increase content (pList + 50)
  let content <- store32 content w.pMsg meter.sid
  let pMsg := w.pMsg + sizeofSMeterSidExtInfo
  let tags := reqTags msg meter
  let content <- storeAll content pMsg tags
  -- assert(offset == tagLen)
  if tags.flatten.length = tagLen then
    some { w with content := content, pMsg := pMsg + tags.flatten.length }
  else none

/-- `vnodeOf` is the first vnode of a vgroup, as `mgmtGetVgroup` finds it. -/
def mgmtBuildMetricMetaMsg (vnodeOf : Nat -> BitVec 32) (msg : SMetricMetaMsg metric)
    (tagLen maxNumOfMeters : Nat) (w : Writing) (meter : STabObj metric) : Option Writing := do
  let starts <- startsList maxNumOfMeters w meter
  let w <- if starts then startList (vnodeOf meter.vgId) meter.vgId w else some w
  appendMeter msg tagLen w meter

def htonlAt (content : List UInt8) (place : Int) : Option (List UInt8) := do
  let word <- load32 content place
  store32 content place (reverseBytes 4 word)

def startReply (tagLen : Nat) (content : List UInt8) : Option (List UInt8) := do
  let content <- store content 0 [TSDB_CODE_SUCCESS]
  let content <- store content 1 [TSDB_IE_TYPE_META]
  let content <- store32 content numOfMetersAt 0
  let content <- store32 content numOfVnodesAt 0
  store16 content tagLenAt (reverseBytes 2 (BitVec.ofNat 16 tagLen))

def mgmtRetrieveMetricMeta (vnodeOf : Nat -> BitVec 32) (msg : SMetricMetaMsg metric)
    (result : List (STabObj metric)) : Option (List UInt8) := do
  let tagLen := mgmtGetReqTagsLength msg
  let maxMetersPerVNodeInQuery := INT32_MAX
  let rspMsgSize := mgmtGetMetricMetaMsgSize result tagLen maxMetersPerVNodeInQuery
  let content <- taosBuildRspMsgWithSize rspMsgSize
  let content <- startReply tagLen content
  let w <- result.foldlM (mgmtBuildMetricMetaMsg vnodeOf msg tagLen maxMetersPerVNodeInQuery)
    ⟨content, 2 + sizeofSMetricMeta, -1, none⟩
  let content <- htonlAt w.content numOfMetersAt
  let content <- htonlAt content numOfVnodesAt
  some (content.take w.pMsg)

end Luomi.Mgmt.MetricMetaMsg
