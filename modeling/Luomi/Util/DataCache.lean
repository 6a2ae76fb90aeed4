import Luomi.Base.Buckets
import Luomi.Util.MurmurHash

/-!
# The data cache (`tcache.c`)

Nodes are in the lists of a hash table, or in the trash where somebody still uses
them.  A node is known by the number of its allocation: the address of a node that has
been freed may be given to another one, a pointer to the freed node still dangles.  A
function that would read or write a freed node, or whose assert fails, has no result.
-/

namespace Luomi.DataCache

open MurmurHash

def hashValueInTrash : Int := -1

def sizeofSDataNode : Nat := 64

/-- `SDataNode`: `prev` and `next` are its neighbours in its list. -/
structure SDataNode where
  key : List UInt8
  time : UInt64
  signature : Nat
  refCount : UInt32
  hashVal : Int
  nodeSize : UInt32

structure SCacheObj where
  hashList : Nat -> List Nat
  maxSessions : Nat
  total : Int
  totalSize : Int
  pTrash : List Nat
  numOfElemsInTrash : Int
  memory : Nat -> Option SDataNode
  /-- How many nodes have been allocated. -/
  allocated : Nat
  /-- The nodes that have been freed, with their `refCount` at that time. -/
  freed : List (Nat × UInt32)

/-- `i = (i << 1)` until the length is reached; a length is at most 2^30. -/
def doubled (length : Nat) : Nat -> Nat -> Nat
  | 0, i => i
  | fuel + 1, i => if i < length then doubled length fuel (2 * i) else i

def taosNormalHashTableLength (length : Nat) : Nat := doubled length 28 4

def taosInitDataCache (maxSessions : Nat) : SCacheObj where
  hashList := fun _ => []
  maxSessions := taosNormalHashTableLength maxSessions
  total := 0
  totalSize := 0
  pTrash := []
  numOfElemsInTrash := 0
  memory := fun _ => none
  allocated := 0
  freed := []

def taosHashKey (maxSessions : Nat) (key : List UInt8) : Nat :=
  (murmurHash3_32 key).toNat &&& (maxSessions - 1)

def alive (obj : SCacheObj) (pList : List Nat) : Bool :=
  pList.all fun pNode => (obj.memory pNode).isSome

section

variable (obj : SCacheObj) (pNode : Nat)

def setNode (node : SDataNode) : SCacheObj :=
  { obj with memory := Function.update obj.memory pNode (some node) }

/-- `free(pNode)`. -/
def freeNode (node : SDataNode) : SCacheObj :=
  { obj with
    memory := Function.update obj.memory pNode none
    freed := obj.freed ++ [(pNode, node.refCount)] }

/-- `taosAddToTrash`; the node in front of the trash is written, too. -/
def taosAddToTrash : Option SCacheObj := do
  let node <- obj.memory pNode
  if node.hashVal = hashValueInTrash then some obj
  else if alive obj obj.pTrash then
    some
      { setNode obj pNode { node with hashVal := hashValueInTrash } with
        pTrash := pNode :: obj.pTrash
        numOfElemsInTrash := obj.numOfElemsInTrash + 1 }
  else none

/-- `taosRemoveFromTrash`; its neighbours are written, too. -/
def taosRemoveFromTrash : Option SCacheObj := do
  let node <- obj.memory pNode
  if node.signature ≠ pNode then some obj
  else if alive obj obj.pTrash then
    some
      (freeNode { obj with
          numOfElemsInTrash := obj.numOfElemsInTrash - 1
          pTrash := obj.pTrash.erase pNode }
        pNode node)
  else none

end

/-- The loop of `taosClearCacheTrash`. -/
def clearLoop (force : Bool) : List Nat -> SCacheObj -> Option SCacheObj
  | [], obj => some obj
  | pNode :: rest, obj => do
      let node <- obj.memory pNode
      if force ∨ node.refCount = 0 then
        let obj <- taosRemoveFromTrash obj pNode
        clearLoop force rest obj
      else clearLoop force rest obj

def taosClearCacheTrash (obj : SCacheObj) (force : Bool) : Option SCacheObj :=
  if obj.numOfElemsInTrash = 0 then some { obj with pTrash := [] }
  else clearLoop force obj.pTrash obj

/-- `taosAddToHashTable`; the node in front of the list is written, too. -/
def taosAddToHashTable (obj : SCacheObj) (pNode : Nat) : Option SCacheObj := do
  let node <- obj.memory pNode
  let pList := obj.hashList node.hashVal.toNat
  if 0 ≤ node.hashVal ∧ alive obj pList then
    some
      { obj with
        hashList := Function.update obj.hashList node.hashVal.toNat (pNode :: pList)
        total := obj.total + 1
        totalSize := obj.totalSize + node.nodeSize.toNat }
  else none

/-- `taosRemoveNodeInHashTable`; its neighbours are written, too. -/
def taosRemoveNodeInHashTable (obj : SCacheObj) (pNode : Nat) : Option SCacheObj := do
  let node <- obj.memory pNode
  let pList := obj.hashList node.hashVal.toNat
  if node.hashVal = hashValueInTrash then some obj
  else if alive obj pList then
    some
      { obj with
        hashList := Function.update obj.hashList node.hashVal.toNat (pList.erase pNode)
        total := obj.total - 1
        totalSize := obj.totalSize - node.nodeSize.toNat }
  else none

/-- The loop of `taosGetNodeFromHashTable`. -/
def findKey (obj : SCacheObj) (key : List UInt8) : List Nat -> Option (Option Nat)
  | [] => some none
  | pNode :: rest => do
      let node <- obj.memory pNode
      if node.key = key then some (some pNode) else findKey obj key rest

def taosGetNodeFromHashTable (obj : SCacheObj) (key : List UInt8) : Option (Option Nat) := do
  let hash := taosHashKey obj.maxSessions key
  match <- findKey obj key (obj.hashList hash) with
  | none => some none
  | some pNode =>
    let node <- obj.memory pNode
    if node.hashVal = hash then some (some pNode) else none

def taosCacheReleaseNode (obj : SCacheObj) (pNode : Nat) : Option SCacheObj := do
  let obj <- taosRemoveNodeInHashTable obj pNode
  let node <- obj.memory pNode
  if node.signature ≠ pNode then some obj else some (freeNode obj pNode node)

def taosCacheMoveNodeToTrash (obj : SCacheObj) (pNode : Nat) : Option SCacheObj := do
  let obj <- taosRemoveNodeInHashTable obj pNode
  taosAddToTrash obj pNode

/-- What the allocator does: `realloc` may move a node or not. -/
inductive Alloc where
  | fails
  | moves
  | stays
  deriving DecidableEq

structure Entry where
  key : List UInt8
  dataSize : Nat
  lifespan : UInt64
  now : UInt64
  alloc : Alloc

def taosCreateHashNode (entry : Entry) (pNode : Nat) (hashVal : Int) : SDataNode where
  key := entry.key
  time := entry.now + entry.lifespan
  signature := pNode
  refCount := 1
  hashVal := hashVal
  nodeSize := UInt32.ofNat (entry.dataSize + sizeofSDataNode + (entry.key.length + 1))

section

variable (obj : SCacheObj)

def createAndAdd (entry : Entry) (hashVal : Int) : Option (Option Nat × SCacheObj) := do
  let pNode := obj.allocated
  let obj <- taosAddToHashTable
    { setNode obj pNode (taosCreateHashNode entry pNode hashVal) with
      allocated := obj.allocated + 1 } pNode
  some (some pNode, obj)

/-- `realloc` of a node in its list: its neighbours are told where it is. -/
def reallocNode (pNode : Nat) (node : SDataNode) (entry : Entry) :
    Option (Option Nat × SCacheObj) :=
  let pList := obj.hashList node.hashVal.toNat
  let renewed (pNewNode : Nat) : SDataNode :=
    { node with signature := pNewNode, key := entry.key, refCount := node.refCount + 1 }
  match entry.alloc with
  | .fails => some (none, obj)
  | .stays =>
    if 0 ≤ node.hashVal ∧ alive obj pList then
      some (some pNode, setNode obj pNode (renewed pNode))
    else none
  | .moves =>
    let pNewNode := obj.allocated
    if 0 ≤ node.hashVal ∧ alive obj pList then
      some (some pNewNode, { setNode (freeNode obj pNode node) pNewNode (renewed pNewNode) with
          hashList := Function.update obj.hashList node.hashVal.toNat
            (pList.replace pNode pNewNode)
          allocated := obj.allocated + 1 })
    else none

def taosUpdateCacheImpl (pNode : Nat) (entry : Entry) : Option (Option Nat × SCacheObj) := do
  let node <- obj.memory pNode
  if node.refCount = 0 then reallocNode obj pNode node entry
  else
    let obj <- taosCacheMoveNodeToTrash obj pNode
    if entry.alloc = .fails then some (none, obj)
    else if node.hashVal = taosHashKey obj.maxSessions entry.key then
      createAndAdd obj entry node.hashVal
    else none

def taosAddToCacheImpl (entry : Entry) : Option (Option Nat × SCacheObj) :=
  if entry.alloc = .fails then some (none, obj)
  else createAndAdd obj entry (taosHashKey obj.maxSessions entry.key)

/-- What `taosAddDataIntoCache` and `taosUpdateDataFromCache` do. -/
def putEntry (entry : Entry) : Option (Option Nat × SCacheObj) := do
  match <- taosGetNodeFromHashTable obj entry.key with
  | none => taosAddToCacheImpl obj entry
  | some pNode => taosUpdateCacheImpl obj pNode entry

/-- `taosAddDataIntoCache`; `keepTime` is in seconds. -/
def taosAddDataIntoCache (key : List UInt8) (dataSize : Nat) (keepTime : Int) (now : UInt64)
    (alloc : Alloc) : Option (Option Nat × SCacheObj) :=
  putEntry obj ⟨key, dataSize, UInt64.ofInt (keepTime * 1000), now, alloc⟩

/-- `taosUpdateDataFromCache`; `duration` is in seconds. -/
def taosUpdateDataFromCache (key : List UInt8) (size : Nat) (duration : Int) (now : UInt64)
    (alloc : Alloc) : Option (Option Nat × SCacheObj) :=
  putEntry obj ⟨key, size, UInt64.ofInt (duration * 1000), now, alloc⟩

def taosGetDataFromCache (key : List UInt8) : Option (Option Nat × SCacheObj) := do
  match <- taosGetNodeFromHashTable obj key with
  | none => some (none, obj)
  | some pNode =>
    let node <- obj.memory pNode
    some (some pNode, setNode obj pNode { node with refCount := node.refCount + 1 })

/-- The unlocked part of `taosRemoveDataFromCache`, and whether it comes to its end. -/
def taosRemoveDataFromCache (pNode : Nat) : Option (Bool × SCacheObj) :=
  if obj.total + obj.numOfElemsInTrash = 0 then some (false, obj)
  else do
    let node <- obj.memory pNode
    if node.signature ≠ pNode then some (false, obj)
    else if 0 < node.refCount then
      some (true, setNode obj pNode { node with refCount := node.refCount - 1 })
    else some (true, obj)

end

/-- The loop of `taosRefreshDataCache` over a list. -/
def refreshLoop (time : UInt64) : List Nat -> SCacheObj -> Option SCacheObj
  | [], obj => some obj
  | pNode :: rest, obj => do
      let node <- obj.memory pNode
      if node.time ≤ time ∧ node.refCount = 0 then
        let obj <- taosCacheReleaseNode obj pNode
        refreshLoop time rest obj
      else refreshLoop time rest obj

/-- The loop of `taosClearDataCache` over a list. -/
def trashLoop : List Nat -> SCacheObj -> Option SCacheObj
  | [], obj => some obj
  | pNode :: rest, obj => do
      let obj <- taosCacheMoveNodeToTrash obj pNode
      trashLoop rest obj

structure Shared where
  obj : SCacheObj
  /-- The references that are held, each by a user. -/
  refs : List (Nat × Nat)
  /-- The nodes that are given back with `remove` and not yet in the trash. -/
  removing : List Nat

/-- The atomic steps: calls, the two parts of a release with `remove`, and a refresh or a
clearing list by list. -/
inductive CacheEvent where
  | get (user : Nat) (key : List UInt8)
  | add (user : Nat) (key : List UInt8) (dataSize : Nat) (keepTime : Int) (now : UInt64)
      (alloc : Alloc)
  | update (user : Nat) (key : List UInt8) (size : Nat) (duration : Int) (now : UInt64)
      (alloc : Alloc)
  | release (user pNode : Nat) (remove : Bool)
  | moveToTrash (pNode : Nat)
  | refreshList (hash : Nat) (time : UInt64)
  | clearList (hash : Nat)
  | clearTrash

def given (shared : Shared) (user : Nat) (result : Option Nat × SCacheObj) : Shared :=
  { shared with
    obj := result.2
    refs :=
      match result.1 with
      | none => shared.refs
      | some pNode => (user, pNode) :: shared.refs }

/-- A step; what a user does not hold it does not release. -/
def cacheStep (shared : Shared) : CacheEvent -> Option Shared
  | .get user key => do
      let result <- taosGetDataFromCache shared.obj key
      some (given shared user result)
  | .add user key dataSize keepTime now alloc => do
      let result <- taosAddDataIntoCache shared.obj key dataSize keepTime now alloc
      some (given shared user result)
  | .update user key size duration now alloc => do
      let result <- taosUpdateDataFromCache shared.obj key size duration now alloc
      some (given shared user result)
  | .release user pNode remove =>
    if (user, pNode) ∈ shared.refs then do
      let (done, obj) <- taosRemoveDataFromCache shared.obj pNode
      if done then
        some
          { obj := obj
            refs := shared.refs.erase (user, pNode)
            removing := if remove then pNode :: shared.removing else shared.removing }
      else some { shared with obj := obj }
    else some shared
  | .moveToTrash pNode =>
    if pNode ∈ shared.removing then do
      let obj <- taosCacheMoveNodeToTrash shared.obj pNode
      some { shared with obj := obj, removing := shared.removing.erase pNode }
    else some shared
  | .refreshList hash time => do
      let obj <- refreshLoop time (shared.obj.hashList hash) shared.obj
      some { shared with obj := obj }
  | .clearList hash => do
      let obj <- trashLoop (shared.obj.hashList hash) shared.obj
      some { shared with obj := obj }
  | .clearTrash => do
      let obj <- taosClearCacheTrash shared.obj false
      some { shared with obj := obj }

def cacheRun (shared : Shared) : List CacheEvent -> Option Shared
  | [] => some shared
  | event :: rest => do
      let next <- cacheStep shared event
      cacheRun next rest

def fresh (maxSessions : Nat) : Shared where
  obj := taosInitDataCache maxSessions
  refs := []
  removing := []

def hashNodes (obj : SCacheObj) : List Nat := Buckets.elements obj.maxSessions obj.hashList

def keyOf (memory : Nat -> Option SDataNode) (pNode : Nat) : Option (List UInt8) :=
  (memory pNode).map SDataNode.key

def sizeOf (memory : Nat -> Option SDataNode) (pNode : Nat) : Nat :=
  ((memory pNode).map fun node => node.nodeSize.toNat).getD 0

/-- No key is there twice, the counters are right, and only nodes with no reference have
been freed. -/
structure Consistent (obj : SCacheObj) : Prop where
  keys : ((hashNodes obj).map (keyOf obj.memory)).Nodup
  total : obj.total = (hashNodes obj).length
  totalSize : obj.totalSize = ((hashNodes obj).map (sizeOf obj.memory)).sum
  trash : obj.numOfElemsInTrash = obj.pTrash.length
  freed : ∀ entry ∈ obj.freed, entry.2 = 0

def unreferenced (obj : SCacheObj) (pList : List Nat) (also : SDataNode -> Bool) : List Nat :=
  pList.filter fun pNode =>
    (obj.memory pNode).any fun node => node.refCount == 0 && also node

def freedBy (obj : SCacheObj) : CacheEvent -> List Nat
  | .refreshList hash time =>
    unreferenced obj (obj.hashList hash) fun node => decide (node.time ≤ time)
  | .clearTrash => unreferenced obj obj.pTrash fun _ => true
  | .add _ key _ _ _ .moves | .update _ key _ _ _ .moves =>
    unreferenced obj (obj.hashList (taosHashKey obj.maxSessions key)) fun node =>
      node.key == key
  | _ => []

/-- No reference count is at its end where one more reference is asked for. -/
def hasRoom (obj : SCacheObj) : CacheEvent -> Bool
  | .get _ key =>
    (obj.hashList (taosHashKey obj.maxSessions key)).all fun pNode =>
      (obj.memory pNode).all fun node => node.key != key || node.refCount != 4294967295
  | _ => true

/-- No node that is freed waits for the second part of its release, and there is room for
one more reference. -/
def Safe (shared : Shared) (event : CacheEvent) : Prop :=
  (∀ pNode ∈ freedBy shared.obj event, pNode ∉ shared.removing) ∧
    hasRoom shared.obj event = true

instance (shared : Shared) (event : CacheEvent) : Decidable (Safe shared event) :=
  inferInstanceAs (Decidable (_ ∧ _))

def SafeRun (shared : Shared) : List CacheEvent -> Prop
  | [] => True
  | event :: rest =>
    Safe shared event ∧ ∀ next ∈ cacheStep shared event, SafeRun next rest

instance decidableSafeRun : (shared : Shared) -> (events : List CacheEvent) ->
    Decidable (SafeRun shared events)
  | _, [] => inferInstanceAs (Decidable True)
  | shared, event :: rest =>
    haveI := fun next => decidableSafeRun next rest
    inferInstanceAs
      (Decidable (Safe shared event ∧ ∀ next ∈ cacheStep shared event, SafeRun next rest))

end Luomi.DataCache
