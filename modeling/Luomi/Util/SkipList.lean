import Luomi.Base.LinkedPath

/-!
# Skip lists (`tskiplist.c`)

The pointers of all nodes at one level are two functions on the heap.  A node is
the number of its allocation; it is in the heap until it is freed.  Keys are
integers, which are only compared.

`none` as a result means that C leaves it open: a pointer that is null or freed
is followed, an array is left, or a loop does not end.
-/

namespace Luomi.SkipList

open LinkedPath

def maxSkipListLevel : Nat := 20

structure TSkipListNode (Data : Type) where
  nLevel : Nat
  pData : Data
  key : Int

structure TSkipList (Data : Type) where
  node : Nat -> Option (TSkipListNode Data)
  nodesMade : Nat
  pForward : Nat -> Ref Nat -> Option Nat
  pBackward : Nat -> Nat -> Option (Ref Nat)
  nSize : Nat
  nMaxLevel : Nat
  nLevel : Nat

/-- The local arrays `forward`. -/
abbrev Places := Nat -> Option (Ref Nat)

section Operations

variable {Data : Type}

def tSkipListCreate (Data : Type) (nMaxLevel : Nat) : TSkipList Data where
  node := fun _ => none
  nodesMade := 0
  pForward := fun _ _ => none
  pBackward := fun _ _ => none
  nSize := 0
  nMaxLevel := nMaxLevel
  nLevel := 1

/-- The length of the arrays `pForward` and `pBackward`. -/
def levelsOf (list : TSkipList Data) : Ref Nat -> Nat
  | .head => maxSkipListLevel
  | .node id => ((list.node id).map TSkipListNode.nLevel).getD 0

/-- `place->pForward[i]`. -/
def getForward (list : TSkipList Data) (i : Nat) (place : Ref Nat) : Option (Option Nat) :=
  if i < levelsOf list place then some (list.pForward i place) else none

/-- `place->pForward[i] = target`. -/
def setForward (list : TSkipList Data) (i : Nat) (place : Ref Nat) (target : Option Nat) :
    Option (TSkipList Data) :=
  if i < levelsOf list place then
    some { list with pForward :=
      Function.update list.pForward i (Function.update (list.pForward i) place target) }
  else none

/-- `id->pBackward[i] = target`. -/
def setBackward (list : TSkipList Data) (i id : Nat) (target : Ref Nat) : Option (TSkipList Data) :=
  if i < levelsOf list (.node id) then
    some { list with pBackward :=
      Function.update list.pBackward i (Function.update (list.pBackward i) id (some target)) }
  else none

def walk (list : TSkipList Data) (key : Int) (i : Nat) : Nat -> Ref Nat -> Option (Ref Nat)
  | 0, _ => none
  | fuel + 1, px => do
      match <- getForward list i px with
      | none => return px
      | some id =>
        let node <- list.node id
        if node.key < key then walk list key i fuel (.node id) else return px

/-- A search from the level below `i` down. -/
def search (list : TSkipList Data) (key : Int) : Nat -> Ref Nat -> Places -> Option Places
  | 0, _, forward => some forward
  | i + 1, px, forward => do
      let px <- walk list key i (list.nodesMade + 1) px
      search list key i px (Function.update forward i (some px))

/-- The loop of `getSkipListNodeRandomHeight`, with the turns it has left. -/
def heightFrom (rand : Nat -> Nat) : Nat -> Nat -> Nat
  | 0, n => n
  | left + 1, n => if rand n % 4 = 0 then heightFrom rand left (n + 1) else n

def getSkipListNodeRandomHeight (rand : Nat -> Nat) : Nat := heightFrom rand maxSkipListLevel 1

def getSkipListNodeLevel (list : TSkipList Data) (rand : Nat -> Nat) : Nat × TSkipList Data :=
  let nLevel := getSkipListNodeRandomHeight rand
  if list.nSize = 0 then (1, { list with nLevel := 1 })
  else if list.nLevel < nLevel ∧ list.nLevel < list.nMaxLevel then
    (list.nLevel + 1, { list with nLevel := list.nLevel + 1 })
  else (nLevel, list)

/-- `tSkipListCreateNode`: the pointers of the node are null. -/
def tSkipListCreateNode (list : TSkipList Data) (node : TSkipListNode Data) : Nat × TSkipList Data
    :=
  let id := list.nodesMade
  (id, { list with
    node := Function.update list.node id (some node)
    nodesMade := list.nodesMade + 1
    pForward := fun i => Function.update (list.pForward i) (.node id) none
    pBackward := fun i => Function.update (list.pBackward i) id none })

/-- The body of the loop of `tSkipListDoInsert`. -/
def insertLevel (forward : Places) (id : Nat) (list : TSkipList Data) (i : Nat) :
    Option (TSkipList Data) :=
  if maxSkipListLevel ≤ i then none
  else
    match forward i with
    | some x => do
        let list <- setBackward list i id x
        let list <- match <- getForward list i x with
          | some next => setBackward list i next (.node id)
          | none => some list
        let target <- getForward list i x
        let list <- setForward list i (.node id) target
        setForward list i x (some id)
    | none => do
        let list <- setForward list i .head (some id)
        setBackward list i id .head

def tSkipListDoInsert (list : TSkipList Data) (forward : Places) (nLevel id : Nat) :
    Option (TSkipList Data) :=
  (List.range nLevel).foldlM (insertLevel forward id) list

/-- The node in front of the new one, if it has its key and must not have it. -/
def identicalNode (list : TSkipList Data) (forward : Places) (key insertIdenticalKey : Int) :
    Option (Option Nat) :=
  if insertIdenticalKey = 0 then do
    match <- forward 0 with
    | .head => return none
    | .node id =>
      let node <- list.node id
      return if node.key = key then some id else none
  else some none

/-- `tSkipListPut`: the node it returns and the list. -/
def tSkipListPut (list : TSkipList Data) (pData : Data) (key insertIdenticalKey : Int)
    (rand : Nat -> Nat) : Option (Nat × TSkipList Data) := do
  let forward <- search list key list.nLevel .head fun _ => none
  match <- identicalNode list forward key insertIdenticalKey with
  | some id => return (id, list)
  | none =>
    let (nLevel, list) := getSkipListNodeLevel list rand
    let (id, list) := tSkipListCreateNode list ⟨nLevel, pData, key⟩
    let list <- tSkipListDoInsert list forward nLevel id
    return (id, { list with nSize := list.nSize + 1 })

/-- The body of the loop of `doRemove`. -/
def removeLevel (forward : Places) (list : TSkipList Data) (j : Nat) : Option (TSkipList Data) := do
  let x <- forward j
  match <- getForward list j x with
  | none => return list
  | some first =>
    let second <- getForward list j (.node first)
    let list <- match second with
      | some next => setBackward list j next x
      | none => some list
    setForward list j x second

def doRemove (list : TSkipList Data) (pNode : Nat) (forward : Places) : Option (TSkipList Data) :=
    do
  let node <- list.node pNode
  let list <- (List.range node.nLevel).reverse.foldlM (removeLevel forward) list
  return { list with node := Function.update list.node pNode none, nSize := list.nSize - 1 }

/-- The loop at the end of `removeSupport`. -/
def compress (list : TSkipList Data) : Nat -> Nat
  | 0 => 0
  | level + 1 => if list.pForward level .head = none then compress list level else level + 1

def removeSupport (list : TSkipList Data) (forward : Places) (key : Int) :
    Option (Bool × TSkipList Data) := do
  let x <- forward 0
  let p <- <- getForward list 0 x
  let node <- list.node p
  if node.key = key then
    let list <- doRemove list p forward
    return (true, { list with nLevel := compress list list.nLevel })
  else return (false, list)

def tSkipListRemove (list : TSkipList Data) (key : Int) : Option (Bool × TSkipList Data) := do
  let forward <- search list key list.nLevel .head fun _ => none
  removeSupport list forward key

def tSkipListRemoveNode (list : TSkipList Data) (pNode : Nat) : Option (TSkipList Data) := do
  let node <- list.node pNode
  let forward : Places := fun i => if i < node.nLevel then list.pBackward i pNode else none
  let result <- removeSupport list forward node.key
  return result.2

inductive Op (Data : Type) where
  | put (pData : Data) (key insertIdenticalKey : Int) (rand : Nat -> Nat)
  | remove (key : Int)
  | removeNode (pNode : Nat)

def runOp (list : TSkipList Data) : Op Data -> Option (TSkipList Data)
  | .put pData key insertIdenticalKey rand =>
    (tSkipListPut list pData key insertIdenticalKey rand).map Prod.snd
  | .remove key => (tSkipListRemove list key).map Prod.snd
  | .removeNode pNode => tSkipListRemoveNode list pNode

end Operations

end Luomi.SkipList
