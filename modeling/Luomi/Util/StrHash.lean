import Luomi.Base.HashChains

/-!
# String hashes (`shash.c`)

At a node of another string the walk of `taosDeleteStrHashNode` goes on without a step.  So it ends
exactly if there is no such node in front of the one to delete, or in the whole chain without that
one.  The other operations make the hash a map in which the newest data of a string is found.
-/

namespace Luomi.StrHash

open Buckets HashChains LinkedPath
open Function (update)

/-- A string hash; a node stands for the pointer to its data as well. -/
structure SHashObj where
  hashList : ChainTable
  maxSessions : Nat
  hashFp : List UInt8 -> Nat
  string : Nat -> List UInt8

structure WellFormed (pObj : SHashObj) (lists : Nat -> List Nat) : Prop where
  linked : Linked pObj.hashList pObj.maxSessions lists
  hash : ∀ string, pObj.hashFp string < pObj.maxSessions
  named : ∀ hash, ∀ node ∈ lists hash, pObj.string node ≠ []

def walk (pObj : SHashObj) (string : List UInt8) (pDeleteNode : Nat) :
    Nat -> Option Nat -> Option (Option Nat)
  | 0, _ => none
  | _ + 1, none => some none
  | fuel + 1, some pNode =>
    -- the `continue` leaves `pNode` as it is
    if pObj.string pNode ≠ string then walk pObj string pDeleteNode fuel (some pNode)
    else if pNode = pDeleteNode then some (some pNode)
    else walk pObj string pDeleteNode fuel (pObj.hashList.next pNode)

/-- The string is empty for a null pointer too. -/
def taosDeleteStrHashNode (fuel : Nat) (pObj : SHashObj) (string : List UInt8)
    (pDeleteNode : Nat) : Option SHashObj :=
  if pObj.maxSessions = 0 ∨ string = [] then some pObj
  else do
    let hash := pObj.hashFp string
    match <- walk pObj string pDeleteNode fuel (pObj.hashList.head hash) with
    | none => return pObj
    | some pNode => return { pObj with hashList := pObj.hashList.unlink hash pNode }

section

variable (pObj : SHashObj) (lists : Nat -> List Nat) (string : List UInt8) (pDeleteNode : Nat)

def remaining (hash : Nat) : List Nat :=
  if hash = pObj.hashFp string ∧ pObj.string pDeleteNode = string then
    (lists hash).erase pDeleteNode
  else lists hash

/-- The call returns, and the node alone is gone from the chains if it was there. -/
def Deletes : Prop :=
  ∃ fuel next, taosDeleteStrHashNode fuel pObj string pDeleteNode =
      some { pObj with hashList := next } ∧
    Linked next pObj.maxSessions (remaining pObj lists string pDeleteNode)

/-- No node of another string comes before the walk is over. -/
def Reached : List Nat -> Prop
  | [] => True
  | node :: rest => pObj.string node = string ∧ (node = pDeleteNode ∨ Reached rest)

end

variable {pObj : SHashObj} {lists : Nat -> List Nat} {string : List UInt8} {pDeleteNode hash : Nat}
  {place : Ref Nat} {nodes : List Nat}

theorem Reached.own (reached : Reached pObj string pDeleteNode nodes)
    (inside : pDeleteNode ∈ nodes) : pObj.string pDeleteNode = string := by
  induction nodes with
  | nil => cases inside
  | cons node rest ih =>
    obtain ⟨same, isNode | later⟩ := reached
    · exact isNode ▸ same
    · rcases List.mem_cons.mp inside with rfl | inRest
      · exact same
      · exact ih later inRest

theorem walk_loops {pNode : Nat} (other : pObj.string pNode ≠ string) (fuel : Nat) :
    walk pObj string pDeleteNode fuel (some pNode) = none := by
  induction fuel with
  | zero => rfl
  | succ fuel ih =>
    rw [walk, if_pos other]
    exact ih

section

variable (path : Path (pObj.hashList.forward hash) pObj.hashList.backward place nodes)

include path

theorem walk_ends (reached : Reached pObj string pDeleteNode nodes) :
    ∃ fuel, walk pObj string pDeleteNode fuel (pObj.hashList.forward hash place) =
      some (if pDeleteNode ∈ nodes then some pDeleteNode else none) := by
  induction nodes generalizing place with
  | nil =>
    rw [show pObj.hashList.forward hash place = none from path]
    exact ⟨1, rfl⟩
  | cons node rest ih =>
    obtain ⟨forward, _, behind⟩ := path
    obtain ⟨same, later⟩ := reached
    rw [forward]
    by_cases isNode : node = pDeleteNode
    · refine ⟨1, ?_⟩
      rw [walk, if_neg (not_not_intro same), if_pos isNode, if_pos (by simp [isNode]), isNode]
    · obtain ⟨fuel, ends⟩ := ih behind (later.resolve_left isNode)
      refine ⟨fuel + 1, ?_⟩
      rw [walk, if_neg (not_not_intro same), if_neg isNode]
      simp only [List.mem_cons, Ne.symm isNode, false_or]
      exact ends

theorem walk_stuck (stuck : ¬ Reached pObj string pDeleteNode nodes) (fuel : Nat) :
    walk pObj string pDeleteNode fuel (pObj.hashList.forward hash place) = none := by
  induction nodes generalizing place fuel with
  | nil => exact absurd trivial stuck
  | cons node rest ih =>
    obtain ⟨forward, _, behind⟩ := path
    rw [forward]
    by_cases same : pObj.string node = string
    · cases fuel with
      | zero => rfl
      | succ fuel =>
        rw [walk, if_neg (not_not_intro same), if_neg fun isNode => stuck ⟨same, .inl isNode⟩]
        exact ih behind (fun reached => stuck ⟨same, .inr reached⟩) fuel
    · exact walk_loops same fuel

end

theorem remaining_of_absent (absent : pDeleteNode ∈ lists (pObj.hashFp string) ->
      pObj.string pDeleteNode ≠ string) : remaining pObj lists string pDeleteNode = lists := by
  funext hash
  unfold remaining
  split
  · rename_i own
    exact List.erase_of_not_mem fun inside => absent (own.1 ▸ inside) own.2
  · rfl

section

variable (formed : WellFormed pObj lists)

include formed

theorem unlinked (inside : pDeleteNode ∈ lists (pObj.hashFp string))
    (same : pObj.string pDeleteNode = string) :
    Linked (pObj.hashList.unlink (pObj.hashFp string) pDeleteNode) pObj.maxSessions
      (remaining pObj lists string pDeleteNode) := by
  obtain ⟨front, rest, absent, parts, erased⟩ := List.exists_erase_eq inside
  have isRemaining : remaining pObj lists string pDeleteNode =
      update lists (pObj.hashFp string) (front ++ rest) := by
    funext hash
    unfold remaining
    by_cases own : hash = pObj.hashFp string
    · rw [if_pos ⟨own, same⟩, own, erased, Function.update_self]
    · rw [if_neg fun both => own both.1, Function.update_of_ne own]
  rw [isRemaining]
  exact formed.linked.unlink (formed.hash string) parts

theorem sessions_used (given : string ≠ []) : ¬ (pObj.maxSessions = 0 ∨ string = []) := by
  have below := formed.hash string
  rintro (none' | empty)
  · omega
  · exact given empty

theorem reached_of_deletes (given : string ≠ []) (deletes : Deletes pObj lists string pDeleteNode) :
    Reached pObj string pDeleteNode (lists (pObj.hashFp string)) := by
  obtain ⟨fuel, next, run, _⟩ := deletes
  by_contra stuck
  have path := formed.linked.path _ (formed.hash string)
  have noEnd : walk pObj string pDeleteNode fuel (pObj.hashList.head (pObj.hashFp string)) = none :=
    walk_stuck path stuck fuel
  rw [taosDeleteStrHashNode, if_neg (sessions_used formed given)] at run
  simp only [noEnd] at run
  cases run

/-- One node is deleted exactly if the walk meets no other string. -/
theorem deletes_iff (string : List UInt8) (pDeleteNode : Nat) :
    Deletes pObj lists string pDeleteNode ↔
      string = [] ∨ Reached pObj string pDeleteNode (lists (pObj.hashFp string)) := by
  by_cases empty : string = []
  · refine iff_of_true ⟨0, pObj.hashList, if_pos (.inr empty), ?_⟩ (.inl empty)
    rw [remaining_of_absent fun inside same => formed.named _ _ inside (same.trans empty)]
    exact formed.linked
  simp only [empty, false_or]
  refine ⟨reached_of_deletes formed empty, fun reached => ?_⟩
  obtain ⟨fuel, ends⟩ := walk_ends (formed.linked.path _ (formed.hash string)) reached
  have ends' : walk pObj string pDeleteNode fuel (pObj.hashList.head (pObj.hashFp string)) = _ :=
    ends
  refine ⟨fuel, if pDeleteNode ∈ lists (pObj.hashFp string) then
    pObj.hashList.unlink (pObj.hashFp string) pDeleteNode else pObj.hashList, ?_, ?_⟩
  · rw [taosDeleteStrHashNode, if_neg (sessions_used formed empty)]
    simp only [ends']
    split <;> rfl
  · split
    · rename_i inside
      exact unlinked formed inside (reached.own inside)
    · rename_i absent
      rw [remaining_of_absent fun inside => absurd inside absent]
      exact formed.linked

end

/-- A bucket with node 1 of string "b" in front of node 0 of string "a". -/
def crossed : SHashObj where
  hashList := ((⟨fun _ => none, fun _ => none, fun _ => none⟩ : ChainTable).push 0 0).push 0 1
  maxSessions := 1
  hashFp _ := 0
  string node := [97 + node.toUInt8]

def crossedLists : Nat -> List Nat := update (update (fun _ => []) 0 [0]) 0 [1, 0]

theorem crossed_formed : WellFormed crossed crossedLists where
  linked := by
    have empty : Linked ⟨fun _ => none, fun _ => none, fun _ => none⟩ 1 fun _ => [] :=
      ⟨fun _ _ => rfl, by simp [elements]⟩
    have one := empty.push Nat.one_pos (show 0 ∉ elements 1 _ by simp [elements])
    exact one.push Nat.one_pos (show 1 ∉ elements 1 _ by simp [elements])
  hash _ := Nat.one_pos
  named _ _ _ := List.cons_ne_nil _ _

theorem front_deleted : Deletes crossed crossedLists [98] 1 :=
  (deletes_iff crossed_formed [98] 1).mpr (.inr ⟨rfl, .inl rfl⟩)

/-- The walk to node 0 stays at node 1. -/
theorem crossed_hangs : ¬ ∀ pObj lists, WellFormed pObj lists ->
    ∀ string pDeleteNode, Deletes pObj lists string pDeleteNode := by
  intro deletes
  have reached := reached_of_deletes crossed_formed (List.cons_ne_nil 97 [])
    (deletes crossed crossedLists crossed_formed [97] 0)
  exact absurd reached.1 (by decide)

/-! ### The hash as a map -/

def taosInitStrHash (maxSessions : Nat) (hashFp : List UInt8 -> Nat) : SHashObj :=
  ⟨⟨fun _ => none, fun _ => none, fun _ => none⟩, maxSessions, hashFp, fun _ => []⟩

/-- `pNode` is the memory of the new node. -/
def taosAddStrHash (pObj : SHashObj) (string : List UInt8) (pNode : Nat) : SHashObj :=
  if pObj.maxSessions = 0 ∨ string = [] then pObj
  else { pObj with
    hashList := pObj.hashList.push (pObj.hashFp string) pNode
    string := update pObj.string pNode string }

/-- The loop of `taosDeleteStrHash` and `taosGetStrHashData`. -/
def findNode (pObj : SHashObj) (string : List UInt8) : Nat -> Option Nat -> Option (Option Nat)
  | 0, _ => none
  | _ + 1, none => some none
  | fuel + 1, some pNode =>
    if pObj.string pNode = string then some (some pNode)
    else findNode pObj string fuel (pObj.hashList.next pNode)

def taosGetStrHashData (fuel : Nat) (pObj : SHashObj) (string : List UInt8) :
    Option (Option Nat) :=
  if pObj.maxSessions = 0 ∨ string = [] then some none
  else findNode pObj string fuel (pObj.hashList.head (pObj.hashFp string))

def taosDeleteStrHash (fuel : Nat) (pObj : SHashObj) (string : List UInt8) : Option SHashObj := do
  match <- taosGetStrHashData fuel pObj string with
  | none => return pObj
  | some pNode =>
    return { pObj with hashList := pObj.hashList.unlink (pObj.hashFp string) pNode }

inductive Op where
  | add (string : List UInt8) (pNode : Nat)
  | delete (string : List UInt8)

def runOps (fuel : Nat) : SHashObj -> List Op -> Option SHashObj
  | pObj, [] => some pObj
  | pObj, .add string pNode :: ops => runOps fuel (taosAddStrHash pObj string pNode) ops
  | pObj, .delete string :: ops => do
      let next <- taosDeleteStrHash fuel pObj string
      runOps fuel next ops

/-- The strings with their nodes, the newest first: what the hash is for. -/
abbrev Bindings := List (List UInt8 × Nat)

def stepBindings (bindings : Bindings) : Op -> Bindings
  | .add string pNode => if string = [] then bindings else (string, pNode) :: bindings
  | .delete string => bindings.eraseP fun binding => binding.1 = string

def lookup (bindings : Bindings) (string : List UInt8) : Option Nat :=
  (bindings.find? fun binding => binding.1 = string).map Prod.snd

/-- `malloc` gives no memory that is in use. -/
def Mallocs : Bindings -> List Op -> Prop
  | _, [] => True
  | bindings, op :: ops =>
    (∀ string pNode, op = .add string pNode -> pNode ∉ bindings.map Prod.snd) ∧
      Mallocs (stepBindings bindings op) ops

def chainOf (hashFp : List UInt8 -> Nat) (bindings : Bindings) (hash : Nat) : List Nat :=
  (bindings.filter fun binding => hashFp binding.1 = hash).map Prod.snd

structure Maps (pObj : SHashObj) (bindings : Bindings) : Prop where
  linked : Linked pObj.hashList pObj.maxSessions (chainOf pObj.hashFp bindings)
  hash : ∀ string, pObj.hashFp string < pObj.maxSessions
  named : ∀ binding ∈ bindings, binding.1 ≠ [] ∧ pObj.string binding.2 = binding.1

section

variable {pObj : SHashObj} {bindings : Bindings}

theorem findNode_path {string : List UInt8} {hash : Nat} {nodes : List Nat} :
    ∀ {place : Ref Nat} {fuel : Nat},
      Path (pObj.hashList.forward hash) pObj.hashList.backward place nodes ->
      nodes.length < fuel -> findNode pObj string fuel (pObj.hashList.forward hash place) =
        some (nodes.find? fun node => pObj.string node = string) := by
  induction nodes with
  | nil =>
    intro place fuel path enough
    obtain ⟨fuel, rfl⟩ := Nat.exists_eq_succ_of_ne_zero (Nat.ne_of_gt enough)
    rw [show pObj.hashList.forward hash place = none from path]
    rfl
  | cons node rest ih =>
    intro place fuel path enough
    obtain ⟨fuel, rfl⟩ := Nat.exists_eq_succ_of_ne_zero (Nat.ne_of_gt (Nat.zero_lt_of_lt enough))
    obtain ⟨forward, _, behind⟩ := path
    rw [forward, findNode, List.find?_cons]
    by_cases same : pObj.string node = string
    · simp [same]
    · simp only [same, if_false, decide_false]
      exact ih behind (Nat.lt_of_succ_lt_succ enough)

theorem find_chain (named : ∀ binding ∈ bindings, pObj.string binding.2 = binding.1)
    (string : List UInt8) : (chainOf pObj.hashFp bindings (pObj.hashFp string)).find?
      (fun node => pObj.string node = string) = lookup bindings string := by
  rw [chainOf, lookup, List.find?_map, List.find?_filter]
  congr 1
  refine List.find?_congr fun binding member => ?_
  simp only [Function.comp_apply, named binding member]
  by_cases same : binding.1 = string <;> simp [same]

section

variable (maps : Maps pObj bindings)

include maps

theorem Maps.get (string : List UInt8) {fuel : Nat} (enough : bindings.length < fuel) :
    taosGetStrHashData fuel pObj string = some (lookup bindings string) := by
  have below := maps.hash string
  have found := find_chain (fun binding member => (maps.named binding member).2) string
  unfold taosGetStrHashData
  split
  · rename_i nothing
    have empty : string = [] := nothing.resolve_left (by omega)
    rw [lookup, List.find?_eq_none.mpr fun binding member => by
      simpa [empty] using (maps.named binding member).1]
    rfl
  · rw [<- found]
    refine findNode_path (maps.linked.path _ below) (Nat.lt_of_le_of_lt ?_ enough)
    rw [chainOf, List.length_map]
    exact List.length_filter_le _ _

theorem Maps.add {string : List UInt8} {pNode : Nat} (fresh : pNode ∉ bindings.map Prod.snd) :
    Maps (taosAddStrHash pObj string pNode) (stepBindings bindings (.add string pNode)) := by
  have below := maps.hash string
  by_cases empty : string = []
  · rwa [taosAddStrHash, if_pos (.inr empty), stepBindings, if_pos empty]
  · rw [taosAddStrHash, if_neg (by rintro (none' | empty') <;> [omega; exact empty empty']),
      stepBindings, if_neg empty]
    have notThere : pNode ∉ elements pObj.maxSessions (chainOf pObj.hashFp bindings) := by
      rw [mem_elements]
      rintro ⟨hash, -, member⟩
      exact fresh ((List.filter_sublist.map Prod.snd).mem member)
    refine ⟨?_, maps.hash, ?_⟩
    · convert maps.linked.push below notThere using 1
      funext hash
      by_cases own : hash = pObj.hashFp string
      · simp [own, chainOf]
      · simp [own, Ne.symm own, chainOf]
    · intro binding member
      rcases List.mem_cons.mp member with rfl | old
      · exact ⟨empty, Function.update_self ..⟩
      · have other : binding.2 ≠ pNode := fun same => fresh (same ▸ List.mem_map_of_mem old)
        exact ⟨(maps.named binding old).1,
          (Function.update_of_ne other ..).trans (maps.named binding old).2⟩

theorem Maps.delete (string : List UInt8) {fuel : Nat} (enough : bindings.length < fuel) :
    ∃ next, taosDeleteStrHash fuel pObj string = some next ∧
      Maps next (stepBindings bindings (.delete string)) := by
  have get := maps.get string enough
  cases found : bindings.find? fun binding => binding.1 = string with
  | none =>
    rw [lookup, found] at get
    refine ⟨pObj, by simp [taosDeleteStrHash, get], ?_⟩
    rwa [stepBindings, List.eraseP_of_forall_not fun binding member =>
      List.find?_eq_none.mp found binding member]
  | some binding =>
    rw [lookup, found] at get
    obtain ⟨key, front, rest, rfl, before⟩ := List.find?_eq_some_iff_append.mp found
    have same : binding.1 = string := of_decide_eq_true key
    refine ⟨{ pObj with hashList := pObj.hashList.unlink (pObj.hashFp string) binding.2 },
      by simp [taosDeleteStrHash, get], ?_⟩
    have erased : stepBindings (front ++ binding :: rest) (.delete string) = front ++ rest := by
      rw [stepBindings, List.eraseP_append_right _ (by simpa using before)]
      simp [same]
    rw [erased]
    refine ⟨?_, maps.hash, fun other member => maps.named other ?_⟩
    · have parts : chainOf pObj.hashFp (front ++ binding :: rest) (pObj.hashFp string) =
          chainOf pObj.hashFp front (pObj.hashFp string) ++ binding.2 ::
            chainOf pObj.hashFp rest (pObj.hashFp string) := by simp [chainOf, same]
      convert maps.linked.unlink (maps.hash string) parts using 1
      funext hash
      by_cases own : hash = pObj.hashFp string
      · simp [own, chainOf]
      · simp [own, Ne.symm own, chainOf, same]
    · exact (List.Sublist.append_left (List.sublist_cons_self _ _) _).mem member

end

theorem runOps_maps (ops : List Op) : ∀ {pObj : SHashObj} {bindings : Bindings} {fuel : Nat},
    Maps pObj bindings -> Mallocs bindings ops -> bindings.length + ops.length < fuel ->
      ∃ last, runOps fuel pObj ops = some last ∧ Maps last (ops.foldl stepBindings bindings) ∧
        (ops.foldl stepBindings bindings).length < fuel := by
  induction ops with
  | nil => exact fun maps _ enough => ⟨_, rfl, maps, enough⟩
  | cons op ops ih =>
    intro pObj bindings fuel maps mallocs enough
    rw [List.length_cons] at enough
    cases op with
    | add string pNode =>
      refine ih (maps.add (mallocs.1 string pNode rfl)) mallocs.2 ?_
      rw [stepBindings]
      split
      · omega
      · rw [List.length_cons]
        omega
    | delete string =>
      have shorter : (stepBindings bindings (.delete string)).length ≤ bindings.length :=
        List.eraseP_sublist.length_le
      obtain ⟨next, deleted, nextMaps⟩ := maps.delete string (show bindings.length < fuel by omega)
      rw [runOps, deleted]
      exact ih nextMaps mallocs.2 (by omega)

end

/-- Behind every run of additions and deletions the hash finds the newest data of each string. -/
theorem strHash_refines {maxSessions : Nat} {hashFp : List UInt8 -> Nat}
    (hash : ∀ string, hashFp string < maxSessions) (ops : List Op) (mallocs : Mallocs [] ops) :
    ∃ last, runOps (ops.length + 1) (taosInitStrHash maxSessions hashFp) ops = some last ∧
      ∀ string, taosGetStrHashData (ops.length + 1) last string =
        some (lookup (ops.foldl stepBindings []) string) := by
  have noNodes : elements maxSessions (chainOf hashFp []) = [] :=
    List.flatMap_eq_nil_iff.mpr fun _ _ => rfl
  have empty : Maps (taosInitStrHash maxSessions hashFp) [] :=
    ⟨⟨fun _ _ => rfl, noNodes ▸ List.nodup_nil⟩, hash, nofun⟩
  obtain ⟨last, run, maps, enough⟩ := runOps_maps ops empty mallocs
    (show 0 + ops.length < ops.length + 1 by omega)
  exact ⟨last, run, fun string => maps.get string enough⟩

def shadowing : List Op := [.add [97] 0, .add [98] 1, .add [97] 2, .delete [97], .delete [98]]

theorem shadowing_refines :
    ∃ last, runOps 6 (taosInitStrHash 2 fun string => string.length % 2) shadowing = some last ∧
      ∀ string, taosGetStrHashData 6 last string =
        some (lookup (shadowing.foldl stepBindings []) string) :=
  strHash_refines (fun _ => Nat.mod_lt _ Nat.two_pos) shadowing
    (by simp [shadowing, Mallocs, stepBindings])

end Luomi.StrHash
