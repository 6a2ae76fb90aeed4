import Luomi.Base.LinkedPath

/-!
# The connection cache of the client (`tscCache.c`)

Idle connections wait in lists, one for each hash of address, port and user, the
newest first.  Nodes are named by their index in the memory pool.  A node whose
keep time has passed is found expired only when a list is visited; it is removed
with all nodes behind it.

`none` as the result of an operation means that a NULL node is dereferenced, that
the table of lists is left, or that a loop does not end.
-/

namespace Luomi.Client.ConnCache

open LinkedPath

/-- The bytes of a user name before the terminating 0; a `char` is signed. -/
abbrev User := List Int8

section ConnCache

variable {δ : Type}

/-- `SConnHash`; `time` is unsigned and has 64 bits. -/
structure SConnHash (δ : Type) where
  ip : UInt32
  port : UInt16
  prev : Option Nat
  next : Option Nat
  data : Option δ
  time : Nat

def zeroNode : SConnHash δ :=
  { ip := 0, port := 0, prev := none, next := none, data := none, time := 0 }

/-- `SConnCache` with the nodes of its memory pool and the queue of the free
ones. -/
structure SConnCache (δ : Type) where
  connHashList : Nat -> Option Nat
  nodes : Nat -> SConnHash δ
  freeList : List Nat
  maxSessions : Nat
  total : Int
  count : Nat -> Int
  keepTimer : Nat
  pTimer : Nat

/-- `taosHashConn`; the sum is an `int`. -/
def taosHashConn (maxSessions : Nat) (ip : UInt32) (port : UInt16) (user : User) : Int :=
  let hash : Int := (ip.toNat / 2 ^ 16 + ip.toNat % 2 ^ 16 + port.toNat : Nat)
  let hash := user.foldl (fun hash byte => (hash + byte.toInt).bmod (2 ^ 32)) hash
  hash.tmod maxSessions

section

variable (cache : SConnCache δ)

def setNode (slot : Nat) (node : SConnHash δ) : SConnCache δ :=
  { cache with nodes := Function.update cache.nodes slot node }

def setHead (hash : Nat) (slot : Option Nat) : SConnCache δ :=
  { cache with connHashList := Function.update cache.connHashList hash slot }

def setNext (slot : Nat) (next : Option Nat) : SConnCache δ :=
  setNode cache slot { cache.nodes slot with next := next }

def setPrev (slot : Nat) (prev : Option Nat) : SConnCache δ :=
  setNode cache slot { cache.nodes slot with prev := prev }

/-- What follows a node is linked to what precedes it: the `next` of the node before
it or the head of the list. -/
def setForward (hash : Nat) (prev next : Option Nat) : SConnCache δ :=
  match prev with
  | some slot => setNext cache slot next
  | none => setHead cache hash next

/-- `total` and `count[hash]` change by a number. -/
def tally (hash : Nat) (change : Int) : SConnCache δ :=
  { cache with
    total := cache.total + change
    count := Function.update cache.count hash (cache.count hash + change) }

def taosMemPoolMalloc : Option (Nat × SConnCache δ) :=
  match cache.freeList with
  | [] => none
  | slot :: rest => some (slot, setNode { cache with freeList := rest } slot zeroNode)

def taosMemPoolFree (slot : Nat) : SConnCache δ :=
  setNode { cache with freeList := cache.freeList ++ [slot] } slot zeroNode

end

abbrev Held (δ : Type) := Nat × SConnHash δ

/-- `pObj->keepTimer + pNode->time`. -/
def expiry (cache : SConnCache δ) (slot : Nat) : Nat :=
  (cache.keepTimer + (cache.nodes slot).time) % 2 ^ 64

/-- The loop of `taosRemoveExpiredNodes`, with the nodes whose data it gives to
`cleanFp`; fuel bounds the length of a list by the number of nodes. -/
def removeNodes (hash : Nat) :
    Nat -> SConnCache δ -> Option Nat -> Option (SConnCache δ × List (Held δ))
  | _, cache, none => some (cache, [])
  | 0, _, some _ => none
  | fuel + 1, cache, some slot =>
    let node := cache.nodes slot
    (removeNodes hash fuel (taosMemPoolFree (tally cache hash (-1)) slot) node.next).map
      fun rest => (rest.1, (slot, node) :: rest.2)

def taosRemoveExpiredNodes (cache : SConnCache δ) (pNode : Option Nat) (hash time : Nat) :
    Option (SConnCache δ × List (Held δ)) :=
  match pNode with
  | none => some (cache, [])
  | some slot =>
    if time < expiry cache slot then some (cache, [])
    else
      let pPrev := (cache.nodes slot).prev
      (removeNodes hash cache.maxSessions cache (some slot)).map fun removed =>
        (setForward removed.1 hash pPrev none, removed.2)

/-- `taosOpenConnCache`: `taosMemPoolInit` refuses a pool of a single node. -/
def taosOpenConnCache (maxSessions keepTimer pTimer : Nat) : Option (SConnCache δ) :=
  if maxSessions ≤ 1 then none
  else some {
    connHashList := fun _ => none
    nodes := fun _ => zeroNode
    freeList := List.range maxSessions
    maxSessions := maxSessions
    total := 0
    count := fun _ => 0
    keepTimer := keepTimer
    pTimer := pTimer }

def pushNode (cache : SConnCache δ) (slot hash : Nat) : SConnCache δ :=
  let first := cache.connHashList hash
  let cache := setNode cache slot { cache.nodes slot with next := first }
  let cache := match first with
    | some later => setPrev cache later (some slot)
    | none => cache
  setHead cache hash (some slot)

def taosAddConnIntoCache (cache : SConnCache δ) (data : Option δ) (ip : UInt32) (port : UInt16)
    (user : User) (time : Nat) : Option (SConnCache δ × Option Nat × List (Held δ)) :=
  if cache.maxSessions = 0 then some (cache, none, [])
  else if data.isNone then some (cache, none, [])
  else
    let hash := taosHashConn cache.maxSessions ip port user
    (taosMemPoolMalloc cache).bind fun (slot, cache) =>
      if hash < 0 then none
      else
        let cache := setNode cache slot
          { ip := ip, port := port, prev := none, next := none, data := data, time := time }
        let cache := tally (pushNode cache slot hash.toNat) hash.toNat 1
        (taosRemoveExpiredNodes cache (cache.nodes slot).next hash.toNat time).map fun removed =>
          (removed.1, some slot, removed.2)

/-- `taosCleanConnCache` for some of the lists. -/
def cleanLists (time : Nat) : List Nat -> SConnCache δ -> Option (SConnCache δ × List (Held δ))
  | [], cache => some (cache, [])
  | hash :: later, cache =>
    (taosRemoveExpiredNodes cache (cache.connHashList hash) hash time).bind fun first =>
      (cleanLists time later first.1).map fun rest => (rest.1, first.2 ++ rest.2)

/-- `taosCleanConnCache`; `nextTimer` is the timer `taosTmrReset` starts. -/
def taosCleanConnCache (cache : SConnCache δ) (tmrId nextTimer time : Nat) :
    Option (SConnCache δ × List (Held δ)) :=
  if cache.maxSessions = 0 then some (cache, [])
  else if cache.pTimer ≠ tmrId then some (cache, [])
  else
    (cleanLists time (List.range cache.maxSessions) cache).map fun cleaned =>
      ({ cleaned.1 with pTimer := nextTimer }, cleaned.2)

/-- Where the loop of `taosGetConnFromCache` stops. -/
inductive Stop where
  | missing
  | expired (slot : Nat)
  | found (slot : Nat)

/-- The loop of `taosGetConnFromCache` up to where it stops. -/
def lookup (cache : SConnCache δ) (ip : UInt32) (port : UInt16) (time : Nat) :
    Nat -> Option Nat -> Option Stop
  | _, none => some .missing
  | 0, some _ => none
  | fuel + 1, some slot =>
    if expiry cache slot ≤ time then some (.expired slot)
    else if (cache.nodes slot).ip = ip ∧ (cache.nodes slot).port = port then some (.found slot)
    else lookup cache ip port time fuel (cache.nodes slot).next

def unlinkNode (cache : SConnCache δ) (slot hash : Nat) : SConnCache δ :=
  let cache := setForward cache hash (cache.nodes slot).prev (cache.nodes slot).next
  let cache := match (cache.nodes slot).next with
    | some later => setPrev cache later (cache.nodes slot).prev
    | none => cache
  tally (taosMemPoolFree cache slot) hash (-1)

/-- `taosGetConnFromCache`, with the node whose data it returns and the ones that
are cleaned. -/
def taosGetConnFromCache (cache : SConnCache δ) (ip : UInt32) (port : UInt16) (user : User)
    (time : Nat) : Option (SConnCache δ × Option (Held δ) × List (Held δ)) :=
  let hash := taosHashConn cache.maxSessions ip port user
  if cache.maxSessions = 0 then some (cache, none, [])
  else if hash < 0 then none
  else
    (lookup cache ip port time cache.maxSessions (cache.connHashList hash.toNat)).bind fun
      | .missing => some (cache, none, [])
      | .expired slot =>
        (taosRemoveExpiredNodes cache (some slot) hash.toNat time).map fun removed =>
          (removed.1, none, removed.2)
      | .found slot =>
        (taosRemoveExpiredNodes cache (cache.nodes slot).next hash.toNat time).map fun removed =>
          (unlinkNode removed.1 slot hash.toNat, some (slot, removed.1.nodes slot), removed.2)

/-- The nodes from one on along their `next`. -/
def slotsFrom (nodes : Nat -> SConnHash δ) : Nat -> Option Nat -> List Nat
  | _, none => []
  | 0, some _ => []
  | fuel + 1, some slot => slot :: slotsFrom nodes fuel (nodes slot).next

def slots (cache : SConnCache δ) (hash : Nat) : List Nat :=
  slotsFrom cache.nodes cache.maxSessions (cache.connHashList hash)

def nextOf (cache : SConnCache δ) (hash : Nat) : Ref Nat -> Option Nat
  | .head => cache.connHashList hash
  | .node slot => (cache.nodes slot).next

def backOf (cache : SConnCache δ) (slot : Nat) : Option (Ref Nat) :=
  match (cache.nodes slot).prev with
  | none => some .head
  | some before => some (.node before)

end ConnCache

end Luomi.Client.ConnCache
