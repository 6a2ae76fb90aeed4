import Mathlib.Data.List.Basic
import Mathlib.Tactic

/-!
# The integer hash

Chained hashing with 32-bit keys (`ihash.c`).  The slot of a key is C's
remainder, which has the sign of the key: a key below zero that is no multiple of
`maxSessions` is looked up in front of the array.
-/

namespace Luomi.Util.IntHash

variable {Data : Type}

/-- `IHashObj`; every chain is given newest node first. -/
structure IHashObj (Data : Type) where
  maxSessions : Nat
  hashList : Nat -> List (BitVec 32 × Data)

def taosInitIntHash (Data : Type) (maxSessions : Nat) : IHashObj Data :=
  { maxSessions := maxSessions, hashList := fun _ => [] }

def taosHashInt (maxSessions : Nat) (key : BitVec 32) : Int :=
  key.toInt.tmod maxSessions

/-- `none` when the slot lies outside the array. -/
def taosAddIntHash (pObj : IHashObj Data) (key : BitVec 32) (pData : Data) :
    Option (IHashObj Data) :=
  let hash := taosHashInt pObj.maxSessions key
  if hash < 0 then none
  else some
    { pObj with
      hashList := Function.update pObj.hashList hash.toNat
        ((key, pData) :: pObj.hashList hash.toNat) }

/-- The node's data, if there is a node; `none` when the slot lies outside the array. -/
def taosGetIntHashData (pObj : IHashObj Data) (key : BitVec 32) : Option (Option Data) :=
  let hash := taosHashInt pObj.maxSessions key
  if hash < 0 then none
  else some (((pObj.hashList hash.toNat).find? (·.1 = key)).map Prod.snd)

def Numbers (pObj : IHashObj Nat) (keys : List (BitVec 32)) : Prop :=
  ∀ key, 0 ≤ taosHashInt pObj.maxSessions key ->
    taosGetIntHashData pObj key =
      some (if key ∈ keys then some (keys.idxOf key) else none)

theorem numbers_init (maxSessions : Nat) : Numbers (taosInitIntHash Nat maxSessions) [] := by
  intro key inside
  rw [taosGetIntHashData, if_neg (not_lt.mpr inside)]
  simp [taosInitIntHash]

variable {key : BitVec 32}

theorem get_none {pObj : IHashObj Data}
    (outside : taosHashInt pObj.maxSessions key < 0) : taosGetIntHashData pObj key = none := by
  rw [taosGetIntHashData, if_pos outside]

section

variable {pObj : IHashObj Data} {pData : Data} {pObj' : IHashObj Data}
  (added : taosAddIntHash pObj key pData = some pObj')

include added

theorem get_add_other {other : BitVec 32} (apart : other ≠ key) :
    taosGetIntHashData pObj' other = taosGetIntHashData pObj other := by
  rw [taosAddIntHash] at added
  split at added
  · cases added
  · cases Option.some.inj added
    simp only [taosGetIntHashData]
    split
    · rfl
    · by_cases same : (taosHashInt pObj.maxSessions other).toNat =
          (taosHashInt pObj.maxSessions key).toNat
      · rw [same, Function.update_self, List.find?_cons_of_neg (by simpa using Ne.symm apart)]
      · rw [Function.update_of_ne same]

theorem get_add_self : taosGetIntHashData pObj' key = some (some pData) := by
  rw [taosAddIntHash] at added
  split at added
  · cases added
  · rename_i inside
    cases Option.some.inj added
    simp [taosGetIntHashData, inside]

end

theorem numbers_add {pObj : IHashObj Nat} {keys : List (BitVec 32)}
    (numbers : Numbers pObj keys) (inside : 0 ≤ taosHashInt pObj.maxSessions key)
    (fresh : key ∉ keys) : ∃ pObj', taosAddIntHash pObj key keys.length = some pObj' ∧
      pObj'.maxSessions = pObj.maxSessions ∧ Numbers pObj' (keys ++ [key]) := by
  obtain ⟨pObj', added, sessions⟩ :
      ∃ pObj', taosAddIntHash pObj key keys.length = some pObj' ∧
        pObj'.maxSessions = pObj.maxSessions := by
    rw [taosAddIntHash, if_neg (not_lt.mpr inside)]
    exact ⟨_, rfl, rfl⟩
  refine ⟨pObj', added, sessions, ?_⟩
  intro other inside'
  by_cases same : other = key
  · subst same
    rw [get_add_self added, if_pos (by simp), List.idxOf_append_of_notMem fresh]
    simp
  · rw [get_add_other added same, numbers other (sessions ▸ inside')]
    by_cases known : other ∈ keys
    · rw [if_pos known, if_pos (by simp [known]), List.idxOf_append_of_mem known]
    · rw [if_neg known, if_neg (by simp [known, same])]

end Luomi.Util.IntHash
