import Luomi.Base.LittleEndian

/-!
# The index of a table (`hashstr.c`, `hashint.c`)

A hash table whose chains have the newest entry first.  It is kept as the list
of its entries, newest first, from which its chains are read off.
-/

namespace Luomi.Sdb.HashIndex

open LittleEndian

abbrev Bytes := List UInt8

/-- `enum _keytype`, the types with an index. -/
inductive KeyType where
  | string
  | uint32
  | auto
  deriving DecidableEq

/-- An entry of the index: the key and what is read of `SRowMeta`. -/
structure Entry (Obj : Type) where
  key : Bytes
  id : Int
  row : Obj

section Index

variable {Obj : Type}

/-- `(*sdbGetIndexFp[keyType])`. -/
def sdbGetIndex (index : List (Entry Obj)) (key : Bytes) : Option (Entry Obj) :=
  index.find? fun entry => entry.key = key

/-- `(*sdbAddIndexFp[keyType])`. -/
def sdbAddIndex (index : List (Entry Obj)) (entry : Entry Obj) : List (Entry Obj) :=
  entry :: index

/-- `(*sdbDeleteIndexFp[keyType])`: the newest entry of the key. -/
def sdbDeleteIndex (index : List (Entry Obj)) (key : Bytes) : List (Entry Obj) :=
  index.eraseP fun entry => entry.key = key

/-- A write through the pointer `sdbGetIndex` returns. -/
def setIndex (index : List (Entry Obj)) (key : Bytes) (change : Entry Obj -> Entry Obj) :
    List (Entry Obj) :=
  match index with
  | [] => []
  | entry :: rest => if entry.key = key then change entry :: rest else entry :: setIndex rest key change

/-- The sum of `sdbHashString`: whole words, then signed bytes. -/
def hashSum : Bytes -> Nat
  | b0 :: b1 :: b2 :: b3 :: rest => (leValue [b0, b1, b2, b3] + hashSum rest) % 2 ^ 32
  | rest => (rest.map fun byte =>
    if byte.toNat < 128 then byte.toNat else 2 ^ 32 - 256 + byte.toNat).sum % 2 ^ 32

def sdbHashString (maxSessions : Nat) (string : Bytes) : Nat :=
  (hashSum string / maxSessions + hashSum string % maxSessions) % maxSessions

def sdbHashLong (maxSessions : Nat) (ip : Nat) : Nat :=
  (ip / 65536 + ip % 65536) % maxSessions

def hashOf (keyType : KeyType) (maxSessions : Nat) (key : Bytes) : Nat :=
  match keyType with
  | .string => sdbHashString maxSessions key
  | .uint32 => sdbHashLong maxSessions (leValue key)
  | .auto => sdbHashLong maxSessions (leValue key)

/-- The entries in the order of `(*sdbFetchRowFp[keyType])`: one chain after the
other. -/
def sdbFetchRows (keyType : KeyType) (maxSessions : Nat) (index : List (Entry Obj)) :
    List (Entry Obj) :=
  (List.range maxSessions).flatMap fun hash =>
    index.filter fun entry => hashOf keyType maxSessions entry.key = hash

variable {index : List (Entry Obj)} {key other : Bytes}
  {entry : Entry Obj}

theorem sdbGetIndex_some (found : sdbGetIndex index key = some entry) :
    entry ∈ index ∧ entry.key = key := by
  unfold sdbGetIndex at found
  have same := List.find?_some found
  exact ⟨List.mem_of_find?_eq_some found, of_decide_eq_true same⟩

theorem sdbGetIndex_eq_none : sdbGetIndex index key = none ↔ key ∉ index.map Entry.key := by
  rw [sdbGetIndex, List.find?_eq_none, List.mem_map]
  constructor
  · rintro absent ⟨entry, member, same⟩
    exact absent entry member (decide_eq_true same)
  · intro absent entry member same
    exact absent ⟨entry, member, of_decide_eq_true same⟩

theorem sdbGetIndex_add (index : List (Entry Obj)) (entry : Entry Obj) (key : Bytes) :
    sdbGetIndex (sdbAddIndex index entry) key =
      if key = entry.key then some entry else sdbGetIndex index key := by
  rw [sdbGetIndex, sdbAddIndex, List.find?_cons]
  by_cases same : key = entry.key
  · simp [same]
  · simp [same, Ne.symm same, sdbGetIndex]

theorem sdbGetIndex_delete (distinct : (index.map Entry.key).Nodup) :
    sdbGetIndex (sdbDeleteIndex index key) other =
      if other = key then none else sdbGetIndex index other := by
  induction index with
  | nil => simp [sdbGetIndex, sdbDeleteIndex]
  | cons entry rest ih =>
    obtain ⟨first, later⟩ := List.nodup_cons.mp distinct
    by_cases own : entry.key = key
    · have dropped : sdbDeleteIndex (entry :: rest) key = rest := by
        simp [sdbDeleteIndex, own]
      rw [dropped]
      by_cases same : other = key
      · rw [if_pos same, sdbGetIndex_eq_none, same, <- own]
        exact first
      · have notOwn : ¬ entry.key = other := fun equal => same (equal.symm.trans own)
        rw [if_neg same]
        simp [sdbGetIndex, notOwn]
    · have kept : sdbDeleteIndex (entry :: rest) key = entry :: sdbDeleteIndex rest key := by
        simp [sdbDeleteIndex, own]
      have step : ∀ list : List (Entry Obj), sdbGetIndex (entry :: list) other =
          if other = entry.key then some entry else sdbGetIndex list other :=
        fun list => sdbGetIndex_add list entry other
      rw [kept, step, step, ih later]
      by_cases same : other = key
      · have notOwn : ¬ other = entry.key := fun equal => own (equal.symm.trans same)
        rw [if_neg notOwn, if_pos same, if_pos same]
      · rw [if_neg same, if_neg same]

theorem sdbDeleteIndex_sublist (index : List (Entry Obj)) (key : Bytes) :
    (sdbDeleteIndex index key).Sublist index :=
  List.eraseP_sublist

theorem length_sdbDeleteIndex (present : sdbGetIndex index key ≠ none) :
    (sdbDeleteIndex index key).length + 1 = index.length := by
  obtain ⟨entry, found⟩ := Option.ne_none_iff_exists'.mp present
  obtain ⟨member, same⟩ := sdbGetIndex_some found
  have positive := List.length_pos_of_mem member
  rw [sdbDeleteIndex, List.length_eraseP_of_mem member (decide_eq_true same)]
  omega

section Change

variable {change : Entry Obj -> Entry Obj}

theorem keys_setIndex (sameKey : ∀ entry, (change entry).key = entry.key) :
    (setIndex index key change).map Entry.key = index.map Entry.key := by
  induction index with
  | nil => rfl
  | cons entry rest ih =>
    rw [setIndex]
    split
    · rw [List.map_cons, List.map_cons, sameKey]
    · rw [List.map_cons, List.map_cons, ih]

theorem sdbGetIndex_set (sameKey : ∀ entry, (change entry).key = entry.key) :
    sdbGetIndex (setIndex index key change) other =
      if other = key then (sdbGetIndex index key).map change else sdbGetIndex index other := by
  have step : ∀ (entry : Entry Obj) (list : List (Entry Obj)) (key : Bytes),
      sdbGetIndex (entry :: list) key =
        if key = entry.key then some entry else sdbGetIndex list key :=
    fun entry list key => sdbGetIndex_add list entry key
  induction index with
  | nil => simp [setIndex, sdbGetIndex]
  | cons entry rest ih =>
    rw [setIndex]
    by_cases own : entry.key = key
    · rw [if_pos own, step, step, step, sameKey, if_pos own.symm]
      by_cases same : other = key
      · rw [if_pos same, if_pos (same.trans own.symm), Option.map_some]
      · have notOwn : ¬ other = entry.key := fun equal => same (equal.trans own)
        rw [if_neg same, if_neg notOwn, if_neg notOwn]
    · rw [if_neg own, step, step, step, ih, if_neg (Ne.symm own)]
      by_cases same : other = key
      · have notOwn : ¬ other = entry.key := fun equal => own (equal.symm.trans same)
        rw [if_neg notOwn, if_pos same, if_pos same]
      · rw [if_neg same, if_neg same]

theorem mem_setIndex (member : entry ∈ setIndex index key change) :
    entry ∈ index ∨ ∃ before ∈ index, before.key = key ∧ entry = change before := by
  induction index with
  | nil => cases member
  | cons first rest ih =>
    rw [setIndex] at member
    split at member
    · rename_i own
      rcases List.mem_cons.mp member with rfl | later
      · exact Or.inr ⟨first, List.mem_cons_self, own, rfl⟩
      · exact Or.inl (List.mem_cons_of_mem _ later)
    · rcases List.mem_cons.mp member with rfl | later
      · exact Or.inl List.mem_cons_self
      · rcases ih later with old | ⟨before, old, own, rfl⟩
        · exact Or.inl (List.mem_cons_of_mem _ old)
        · exact Or.inr ⟨before, List.mem_cons_of_mem _ old, own, rfl⟩

end Change

end Index

end Luomi.Sdb.HashIndex
