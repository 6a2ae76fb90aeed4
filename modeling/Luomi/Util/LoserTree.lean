import Mathlib

/-!
# The loser tree

`tlosertree.c` keeps a tournament over `numOfEntries` entries.  The nodes from
`numOfEntries` on are the entries themselves, each inner node holds the loser
of the match played there and node 0 the winner of them all.  The order of the
entries is the caller's comparison function, which reads the caller's state:
an entry changes its key whenever the caller takes it from the top.

A node's index is -1 until the first entry reaches it; here it is `none`.
-/

namespace Luomi.Util.LoserTree

open Function (update update_of_ne update_self)
open Option (some.inj)

structure SLoserTreeInfo where
  numOfEntries : Nat
  totalEntries : Nat
  pNode : Nat -> Option Nat

def tLoserTreeInit (numOfEntries : Nat) : SLoserTreeInfo where
  numOfEntries := numOfEntries
  totalEntries := 2 * numOfEntries
  pNode := fun i =>
    if i < numOfEntries then none
    else if i < 2 * numOfEntries then some (i - numOfEntries) else none

/-- The loop of `tLoserTreeAdjust` over `parentId`, and what follows it. -/
def climb (comparaFn : Nat -> Nat -> Int) :
    Nat -> Nat -> (Nat -> Option Nat) -> Nat -> Option Nat
  | 0, kLeaf, pNode =>
    if pNode 1 = some kLeaf then pNode else update pNode 0 (some kLeaf)
  | parentId + 1, kLeaf, pNode =>
    match pNode (parentId + 1) with
    | none => update pNode (parentId + 1) (some kLeaf)
    | some loser =>
      if comparaFn loser kLeaf < 0 then
        climb comparaFn ((parentId + 1) / 2) loser
          (update pNode (parentId + 1) (some kLeaf))
      else
        climb comparaFn ((parentId + 1) / 2) kLeaf pNode

def tLoserTreeAdjust (comparaFn : Nat -> Nat -> Int) (pTree : SLoserTreeInfo)
    (idx : Nat) : SLoserTreeInfo :=
  if pTree.totalEntries = 2 then
    { pTree with
      pNode := update (update pTree.pNode 0 (some 0)) 1 (some 0) }
  else
    match pTree.pNode idx with
    | none => pTree
    | some kLeaf => { pTree with pNode := climb comparaFn (idx / 2) kLeaf pTree.pNode }

/-- The loop of `tLoserTreeCreate` over the entries, the last one first. -/
def adjustFrom (comparaFn : Nat -> Nat -> Int) :
    Nat -> SLoserTreeInfo -> SLoserTreeInfo
  | 0, pTree => pTree
  | left + 1, pTree =>
    adjustFrom comparaFn left
      (tLoserTreeAdjust comparaFn pTree (pTree.numOfEntries + left))

def tLoserTreeCreate (numOfEntries : Nat) (comparaFn : Nat -> Nat -> Int) :
    SLoserTreeInfo :=
  adjustFrom comparaFn numOfEntries (tLoserTreeInit numOfEntries)

/-! ## A match and a tournament

`win x` is the winner of the entries below node `x`, as soon as all of them
have entered; `node x` is what the tree stores there. -/

section Tournament

variable {K : Type*} [Preorder K] (key : Nat -> K)

/-- What a match between the winners of two halves leaves behind. -/
def Decided (left right winner loser : Option Nat) : Prop :=
  match left, right with
  | none, other => winner = none ∧ loser = other
  | some a, none => winner = none ∧ loser = some a
  | some a, some b =>
    (winner = some a ∧ loser = some b ∧ key a ≤ key b) ∨
      (winner = some b ∧ loser = some a ∧ key b ≤ key a)

structure Tournament (n : Nat) (win node : Nat -> Option Nat) : Prop where
  leaf : ∀ x, n ≤ x -> x < 2 * n -> node x = some (x - n)
  entered : ∀ x, n ≤ x -> x < 2 * n -> ∀ a, win x = some a -> a = x - n
  inner : ∀ x, 1 ≤ x -> x < n ->
    Decided key (win (2 * x)) (win (2 * x + 1)) (win x) (node x)

def sibling (c : Nat) : Nat :=
  if c % 2 = 0 then c + 1 else c - 1

/-- A tournament but for the match at the parent of `c`, which the winner `k`
of `c` is about to play. -/
structure Rising (n : Nat) (c k : Nat) (win node : Nat -> Option Nat) : Prop where
  place : 1 ≤ c ∧ c < 2 * n
  leaf : ∀ x, n ≤ x -> x < 2 * n -> node x = some (x - n)
  entered : ∀ x, n ≤ x -> x < 2 * n -> ∀ a, win x = some a -> a = x - n
  inner : ∀ x, 1 ≤ x -> x < n -> x ≠ c / 2 ->
    Decided key (win (2 * x)) (win (2 * x + 1)) (win x) (node x)
  child : win c = some k
  parent : 2 ≤ c -> win (c / 2) = none ∧ node (c / 2) = win (sibling c)

variable {key}
  {loser right : Option Nat} {node win : Nat -> Option Nat} {n : Nat}
  {comparaFn : Nat -> Nat -> Int} {pTree : SLoserTreeInfo}

variable {left winner : Option Nat}

theorem Decided.symm (decided : Decided key left right winner loser) :
    Decided key right left winner loser := by
  cases left with
  | none =>
    cases right with
    | none => exact decided
    | some b => exact decided
  | some a =>
    cases right with
    | none => exact decided
    | some b => exact Or.symm decided

theorem Decided.of_none (decided : Decided key none right winner loser) :
    winner = none ∧ loser = right := decided

theorem Decided.of_winner {w : Nat}
    (decided : Decided key left right (some w) loser) : ∃ a b, left = some a ∧ right = some b ∧
      (w = a ∧ loser = some b ∨ w = b ∧ loser = some a) ∧ key w ≤ key a ∧ key w ≤ key b := by
  cases left with
  | none => cases decided.1
  | some a =>
    cases right with
    | none => cases decided.1
    | some b =>
      refine ⟨a, b, rfl, rfl, ?_⟩
      rcases decided with ⟨winnerIs, loserIs, ordered⟩ | ⟨winnerIs, loserIs, ordered⟩
      · cases winnerIs
        exact ⟨Or.inl ⟨rfl, loserIs⟩, le_refl _, ordered⟩
      · cases winnerIs
        exact ⟨Or.inr ⟨rfl, loserIs⟩, ordered, le_refl _⟩

theorem children (c : Nat) (large : 2 ≤ c) : (c = 2 * (c / 2) ∧ sibling c = 2 * (c / 2) + 1) ∨
      (c = 2 * (c / 2) + 1 ∧ sibling c = 2 * (c / 2)) := by
  rcases Nat.mod_two_eq_zero_or_one c with even | odd
  · left
    simp only [sibling, even, if_true]
    omega
  · right
    simp only [sibling, odd, Nat.one_ne_zero, if_false]
    omega

theorem decided_at (c : Nat) (large : 2 ≤ c) :
    Decided key (win (2 * (c / 2))) (win (2 * (c / 2) + 1)) (win (c / 2)) (node (c / 2)) ↔
      Decided key (win c) (win (sibling c)) (win (c / 2)) (node (c / 2)) := by
  rcases children c large with ⟨self, other⟩ | ⟨self, other⟩
  · rw [other, <- self]
  · rw [other, <- self]
    exact ⟨Decided.symm, Decided.symm⟩

theorem Rising.alone {c k : Nat} (rising : Rising key n c k win node) (large : 2 ≤ c)
    (free : node (c / 2) = none) : Tournament key n win (update node (c / 2) (some k)) := by
  obtain ⟨pending, stored⟩ := rising.parent large
  have parentSmall : c / 2 < n := by
    have := rising.place.2
    omega
  refine ⟨?_, rising.entered, ?_⟩
  · intro x low high
    rw [update_of_ne (by omega)]
    exact rising.leaf x low high
  · intro x positive small
    by_cases here : x = c / 2
    · subst here
      rw [decided_at c large, rising.child, <- stored, free, update_self]
      exact ⟨pending, rfl⟩
    · rw [update_of_ne here]
      exact rising.inner x positive small here

theorem Rising.met {c k w l : Nat} (rising : Rising key n c k win node) (large : 2 ≤ c)
    (played : ∃ o, node (c / 2) = some o ∧
      ((w = k ∧ l = o ∧ key k ≤ key o) ∨ (w = o ∧ l = k ∧ key o ≤ key k))) :
    Rising key n (c / 2) w (update win (c / 2) (some w)) (update node (c / 2) (some l)) := by
  obtain ⟨o, stored, result⟩ := played
  obtain ⟨pending, isSibling⟩ := rising.parent large
  have placed := rising.place
  have selfNe : c ≠ c / 2 := by omega
  have siblingNe : sibling c ≠ c / 2 := by
    rcases children c large with ⟨_, other⟩ | ⟨_, other⟩ <;> omega
  refine ⟨by omega, ?_, ?_, ?_, update_self .., ?_⟩
  · intro x low high
    rw [update_of_ne (by omega)]
    exact rising.leaf x low high
  · intro x low high a entered
    rw [update_of_ne (by omega)] at entered
    exact rising.entered x low high a entered
  · intro x positive small away
    by_cases here : x = c / 2
    · subst here
      rw [decided_at c large, update_of_ne selfNe, update_of_ne siblingNe, update_self, update_self,
        rising.child, <- isSibling, stored]
      rcases result with ⟨winner, loser, ordered⟩ | ⟨winner, loser, ordered⟩
      · exact Or.inl ⟨by rw [winner], by rw [loser], ordered⟩
      · exact Or.inr ⟨by rw [winner], by rw [loser], ordered⟩
    · rw [update_of_ne (by omega), update_of_ne (by omega), update_of_ne here, update_of_ne here]
      exact rising.inner x positive small here
  · intro further
    have above := rising.inner (c / 2 / 2) (by omega) (by omega) (by omega)
    rw [decided_at (c / 2) further, pending] at above
    have siblingAway : sibling (c / 2) ≠ c / 2 := by
      rcases children (c / 2) further with ⟨_, other⟩ | ⟨_, other⟩ <;> omega
    rw [update_of_ne (by omega), update_of_ne (by omega), update_of_ne siblingAway]
    exact above.of_none

theorem Rising.top {k : Nat} (rising : Rising key n 1 k win node) : Tournament key n win node :=
  ⟨rising.leaf, rising.entered, fun x positive small => rising.inner x positive small (by omega)⟩

theorem Tournament.update_zero
    (tournament : Tournament key n win node) (_ : 0 < n) (value : Option Nat) :
    Tournament key n win (update node 0 value) := by
  refine ⟨?_, tournament.entered, ?_⟩
  · intro x low high
    rw [update_of_ne (by omega)]
    exact tournament.leaf x low high
  · intro x one small
    rw [update_of_ne (by omega)]
    exact tournament.inner x one small

/-- `x` is on the way from `y` to the root. -/
def Above (x y : Nat) : Prop :=
  ∃ k, y / 2 ^ k = x

theorem Above.refl (x : Nat) : Above x x := ⟨0, by simp⟩

variable {x y : Nat}

theorem Above.parent (above : Above x y) : Above (x / 2) y := by
  obtain ⟨k, reached⟩ := above
  exact ⟨k + 1, by rw [Nat.pow_succ, <- Nat.div_div_eq_div_mul, reached]⟩

theorem Above.cases (above : Above x y) : x = y ∨ Above (2 * x) y ∨ Above (2 * x + 1) y := by
  obtain ⟨k, reached⟩ := above
  cases k with
  | zero =>
    left
    simpa using reached.symm
  | succ k =>
    right
    rw [Nat.pow_succ, <- Nat.div_div_eq_div_mul] at reached
    rcases Nat.mod_two_eq_zero_or_one (y / 2 ^ k) with even | odd
    · exact Or.inl ⟨k, by omega⟩
    · exact Or.inr ⟨k, by omega⟩

theorem Above.le (above : Above x y) : x ≤ y := by
  obtain ⟨k, reached⟩ := above
  exact reached ▸ Nat.div_le_self ..

theorem Above.disjoint (left : Above (2 * x) y)
    (right : Above (2 * x + 1) y) (positive : 1 ≤ x) : False := by
  obtain ⟨i, leftReached⟩ := left
  obtain ⟨j, rightReached⟩ := right
  rcases Nat.lt_trichotomy i j with before | same | after
  · obtain ⟨d, rfl⟩ := Nat.exists_eq_add_of_lt before
    rw [show i + d + 1 = i + (d + 1) by omega, Nat.pow_add, <- Nat.div_div_eq_div_mul,
      leftReached] at rightReached
    have shrinks : 2 * x / 2 ^ (d + 1) ≤ 2 * x := Nat.div_le_self ..
    omega
  · subst same
    omega
  · obtain ⟨d, rfl⟩ := Nat.exists_eq_add_of_lt after
    rw [show j + d + 1 = j + 1 + d by omega, Nat.pow_add, Nat.pow_succ,
      <- Nat.div_div_eq_div_mul, <- Nat.div_div_eq_div_mul, rightReached] at leftReached
    have shrinks : (2 * x + 1) / 2 / 2 ^ d ≤ (2 * x + 1) / 2 := Nat.div_le_self ..
    omega

theorem Tournament.below (tournament : Tournament key n win node) (x : Nat) (positive : 1 ≤ x)
    (small : x < 2 * n) (w : Nat) (won : win x = some w) : w < n ∧ Above x (w + n) ∧
      ∀ y, n ≤ y -> y < 2 * n -> Above x y -> key w ≤ key (y - n) := by
  -- Downwards from the leaves: the children of `x` come before it.
  induction measure : 2 * n - x using Nat.strongRecOn generalizing x w with
  | ind _ hypothesis =>
    by_cases isLeaf : n ≤ x
    · have entry := tournament.entered x isLeaf small w won
      refine ⟨by omega, ?_, ?_⟩
      · rw [entry, Nat.sub_add_cancel isLeaf]
        exact Above.refl x
      · intro y low high above
        rcases above.cases with same | left | right
        · rw [entry, same]
        · have := left.le
          omega
        · have := right.le
          omega
    · have decided := tournament.inner x positive (by omega)
      rw [won] at decided
      obtain ⟨a, b, leftWon, rightWon, which, aboveLeft, aboveRight⟩ :=
        decided.of_winner
      obtain ⟨aSmall, aBelow, aLeast⟩ :=
        hypothesis (2 * n - 2 * x) (by omega) (2 * x) (by omega) (by omega) a leftWon rfl
      obtain ⟨bSmall, bBelow, bLeast⟩ :=
        hypothesis (2 * n - (2 * x + 1)) (by omega) (2 * x + 1) (by omega) (by omega) b rightWon rfl
      have least : ∀ y, n ≤ y -> y < 2 * n -> Above x y -> key w ≤ key (y - n) := by
        intro y low high above
        rcases above.cases with same | left | right
        · omega
        · exact aboveLeft.trans (aLeast y low high left)
        · exact aboveRight.trans (bLeast y low high right)
      rcases which with ⟨isLeft, _⟩ | ⟨isRight, _⟩
      · subst isLeft
        have up := aBelow.parent
        rw [show 2 * x / 2 = x by omega] at up
        exact ⟨aSmall, up, least⟩
      · subst isRight
        have up := bBelow.parent
        rw [show (2 * x + 1) / 2 = x by omega] at up
        exact ⟨bSmall, up, least⟩

def Compares (key : Nat -> K) (comparaFn : Nat -> Nat -> Int) (n : Nat) : Prop :=
  ∀ a b, a < n -> b < n ->
    (comparaFn a b < 0 -> key a ≤ key b) ∧ (¬ comparaFn a b < 0 -> key b ≤ key a)

theorem Tournament.loser_ne
    (tournament : Tournament key n win node) (x : Nat) (positive : 1 ≤ x) (small : x < n)
    (w : Nat) (won : win x = some w) : node x ≠ some w := by
  intro same
  have decided := tournament.inner x positive small
  rw [won] at decided
  obtain ⟨a, b, leftWon, rightWon, which, -, -⟩ := decided.of_winner
  have left := (tournament.below (2 * x) (by omega) (by omega) a leftWon).2.1
  have right := (tournament.below (2 * x + 1) (by omega) (by omega) b rightWon).2.1
  have equal : a = b := by
    rcases which with ⟨winner, loser⟩ | ⟨winner, loser⟩
    · rw [same] at loser
      exact winner.symm.trans (some.inj loser)
    · rw [same] at loser
      exact (some.inj loser).symm.trans winner
  rw [equal] at left
  exact left.disjoint right positive

theorem Tournament.none_up (tournament : Tournament key n win node) (x : Nat) (positive : 1 ≤ x)
    (small : x < 2 * n) (pending : win x = none) : win 1 = none := by
  induction x using Nat.strongRecOn with
  | ind x hypothesis =>
    by_cases atRoot : x = 1
    · exact atRoot ▸ pending
    · have decided := tournament.inner (x / 2) (by omega) (by omega)
      rw [decided_at x (by omega), pending] at decided
      exact hypothesis (x / 2) (by omega) (by omega) (by omega) decided.of_none.1

theorem stored_update (entries : ∀ x o, node x = some o -> o < n) (p k : Nat) (small : k < n) :
    ∀ x o, update node p (some k) x = some o -> o < n := by
  intro x o stored
  by_cases here : x = p
  · subst here
    rw [update_self] at stored
    exact some.inj stored ▸ small
  · rw [update_of_ne here] at stored
    exact entries x o stored

theorem climb_played (compares : Compares key comparaFn n) (two : 2 ≤ n) (c k : Nat)
    (win node : Nat -> Option Nat) (small : k < n)
    (entries : ∀ x o, node x = some o -> o < n) (rising : Rising key n c k win node) :
    ∃ win', Tournament key n win' (climb comparaFn (c / 2) k node) ∧
      (∀ x, n ≤ x -> x < 2 * n -> win' x = win x) ∧
      (∀ w, win' 1 = some w -> climb comparaFn (c / 2) k node 0 = some w) := by
  -- Upwards: the next node on the way is `c / 2`.
  induction c using Nat.strongRecOn generalizing k win node with
  | ind c hypothesis =>
    by_cases atRoot : c = 1
    · subst atRoot
      have tournament := rising.top
      have away := tournament.loser_ne 1 (Nat.le_refl 1) (by omega) k rising.child
      refine ⟨win, ?_, fun _ _ _ => rfl, ?_⟩
      · simp only [show 1 / 2 = 0 from rfl, climb, away, if_false]
        exact tournament.update_zero (by omega) _
      · intro w won
        rw [rising.child] at won
        simpa [climb, away] using won
    · have large : 2 ≤ c := by
        have := rising.place.1
        omega
      obtain ⟨parentId, isParent⟩ : ∃ p, c / 2 = p + 1 := ⟨c / 2 - 1, by omega⟩
      have placed := rising.place
      cases stored : node (c / 2) with
      | none =>
        have step : climb comparaFn (c / 2) k node = update node (c / 2) (some k) := by
          rw [isParent] at stored ⊢
          simp only [climb, stored]
        rw [step]
        refine ⟨win, rising.alone large stored, fun _ _ _ => rfl, ?_⟩
        intro w won
        have open_ := (rising.alone large stored).none_up (c / 2) (by omega) (by omega)
          (rising.parent large).1
        rw [open_] at won
        cases won
      | some o =>
        have oSmall := entries (c / 2) o stored
        by_cases smaller : comparaFn o k < 0
        · have step : climb comparaFn (c / 2) k node =
              climb comparaFn (c / 2 / 2) o (update node (c / 2) (some k)) := by
            rw [isParent] at stored ⊢
            rw [climb, stored]
            simp only [smaller, if_true]
          have next := rising.met large
            ⟨o, stored, Or.inr ⟨rfl, rfl, (compares o k oSmall small).1 smaller⟩⟩
          obtain ⟨win', played, leaves, root⟩ :=
            hypothesis (c / 2) (by omega) o _ _ oSmall (stored_update entries (c / 2) k small) next
          rw [step]
          refine ⟨win', played, ?_, root⟩
          intro x low high
          rw [leaves x low high, update_of_ne (by omega)]
        · have step : climb comparaFn (c / 2) k node = climb comparaFn (c / 2 / 2) k node := by
            rw [isParent] at stored ⊢
            rw [climb, stored]
            simp only [smaller, if_false]
          have next := rising.met large
            ⟨o, stored, Or.inl ⟨rfl, rfl, (compares o k oSmall small).2 smaller⟩⟩
          rw [<- stored, Function.update_eq_self] at next
          obtain ⟨win', played, leaves, root⟩ :=
            hypothesis (c / 2) (by omega) k _ _ small entries next
          rw [step]
          refine ⟨win', played, ?_, root⟩
          intro x low high
          rw [leaves x low high, update_of_ne (by omega)]

theorem climb_entries (c k : Nat) (node : Nat -> Option Nat) (small : k < n)
    (entries : ∀ x o, node x = some o -> o < n) :
    ∀ x o, climb comparaFn c k node x = some o -> o < n := by
  induction c, k, node using climb.induct comparaFn with
  | case1 k node same =>
    simpa [climb, same] using entries
  | case2 k node away =>
    simp only [climb, away, if_false]
    exact stored_update entries 0 k small
  | case3 parentId k node free =>
    simp only [climb, free]
    exact stored_update entries (parentId + 1) k small
  | case4 parentId k node loser stored smaller hypothesis =>
    rw [climb, stored]
    simp only [smaller, if_true]
    exact hypothesis (entries _ _ stored) (stored_update entries (parentId + 1) k small)
  | case5 parentId k node loser stored larger hypothesis =>
    rw [climb, stored]
    simp only [larger, if_false]
    exact hypothesis small entries

theorem Tournament.enter (tournament : Tournament key n win node) (idx : Nat) (low : n ≤ idx)
    (high : idx < 2 * n) (waiting : win idx = none) :
    Rising key n idx (idx - n) (update win idx (some (idx - n))) node := by
  refine ⟨by omega, tournament.leaf, ?_, ?_, update_self .., ?_⟩
  · intro x xLow xHigh a entered
    by_cases here : x = idx
    · rw [here, update_self] at entered
      rw [here]
      exact (some.inj entered).symm
    · rw [update_of_ne here] at entered
      exact tournament.entered x xLow xHigh a entered
  · intro x positive small away
    rw [update_of_ne (by omega), update_of_ne (by omega), update_of_ne (by omega)]
    exact tournament.inner x positive small
  · intro large
    have decided := tournament.inner (idx / 2) (by omega) (by omega)
    rw [decided_at idx large, waiting] at decided
    have siblingAway : sibling idx ≠ idx := by
      rcases children idx large with ⟨_, other⟩ | ⟨_, other⟩ <;> omega
    rw [update_of_ne (by omega), update_of_ne siblingAway]
    exact decided.of_none

/-- The tree of `n` entries after some of them have entered. -/
structure Entered (key : Nat -> K) (n : Nat) (win : Nat -> Option Nat)
    (pTree : SLoserTreeInfo) : Prop where
  numOfEntries : pTree.numOfEntries = n
  totalEntries : pTree.totalEntries = 2 * n
  entries : ∀ x o, pTree.pNode x = some o -> o < n
  tournament : Tournament key n win pTree.pNode
  root : ∀ w, win 1 = some w -> pTree.pNode 0 = some w

theorem Entered.adjust (entered : Entered key n win pTree) (two : 2 ≤ n)
    (compares : Compares key comparaFn n) (idx : Nat) (low : n ≤ idx)
    (high : idx < 2 * n) (waiting : win idx = none) :
    ∃ win', Entered key n win' (tLoserTreeAdjust comparaFn pTree idx) ∧
      ∀ x, n ≤ x -> x < 2 * n ->
        win' x = if x = idx then some (idx - n) else win x := by
  have stored := entered.tournament.leaf idx low high
  have step : tLoserTreeAdjust comparaFn pTree idx =
      { pTree with pNode := climb comparaFn (idx / 2) (idx - n) pTree.pNode } := by
    have many : pTree.totalEntries ≠ 2 := by
      rw [entered.totalEntries]
      omega
    simp only [tLoserTreeAdjust, many, if_false, stored]
  obtain ⟨win', played, leaves, root⟩ :=
    climb_played compares two idx (idx - n) _ _ (by omega) entered.entries
      (entered.tournament.enter idx low high waiting)
  rw [step]
  refine ⟨win', ⟨entered.numOfEntries, entered.totalEntries,
    climb_entries _ _ _ (by omega) entered.entries, played, root⟩, ?_⟩
  intro x xLow xHigh
  rw [leaves x xLow xHigh]
  by_cases here : x = idx
  · rw [here, update_self, if_pos rfl]
  · rw [update_of_ne here, if_neg here]

variable {pos : Nat}

theorem Tournament.path (tournament : Tournament key n win node) (won : win 1 = some pos) (x : Nat)
    (positive : 1 ≤ x) (small : x < 2 * n) (above : Above x (pos + n)) : win x = some pos := by
  induction x using Nat.strongRecOn with
  | ind x hypothesis =>
    by_cases atRoot : x = 1
    · exact atRoot ▸ won
    · have large : 2 ≤ x := by omega
      have parentWon := hypothesis (x / 2) (by omega) (by omega) (by omega) above.parent
      have decided := tournament.inner (x / 2) (by omega) (by omega)
      rw [decided_at x large, parentWon] at decided
      obtain ⟨a, b, selfWon, otherWon, which, -, -⟩ := decided.of_winner
      rcases which with ⟨isSelf, -⟩ | ⟨isOther, -⟩
      · rw [selfWon, isSelf]
      · exfalso
        rcases children x large with ⟨self, other⟩ | ⟨self, other⟩
        · have otherAbove := (tournament.below _ (by omega) (by omega) b otherWon).2.1
          rw [other, <- isOther] at otherAbove
          rw [self] at above
          exact above.disjoint otherAbove (by omega)
        · have otherAbove := (tournament.below _ (by omega) (by omega) b otherWon).2.1
          rw [other, <- isOther] at otherAbove
          rw [self] at above
          exact otherAbove.disjoint above (by omega)

variable {key' : Nat -> K}

theorem Decided.congr (decided : Decided key left right winner loser)
    (leftSame : ∀ a, left = some a -> key' a = key a)
    (rightSame : ∀ b, right = some b -> key' b = key b) : Decided key' left right winner loser := by
  cases left with
  | none => exact decided
  | some a =>
    cases right with
    | none => exact decided
    | some b =>
      simp only [Decided, leftSame a rfl, rightSame b rfl]
      exact decided

/-- Taking the winner out leaves a tournament in which only it has to enter
again, whatever its key is from now on. -/
theorem Tournament.withdraw
    (tournament : Tournament key n win node) (won : win 1 = some pos) (two : 2 ≤ n)
    (kept : ∀ a, a ≠ pos -> key' a = key a) :
    ∃ win', Tournament key' n win' node ∧ win' 1 = none ∧
      ∀ x, n ≤ x -> x < 2 * n -> win' x = if x = pos + n then none else win x := by
  classical
  have rootAbove := (tournament.below 1 (Nat.le_refl 1) (by omega) pos won).2.1
  let win' : Nat -> Option Nat := fun x => if Above x (pos + n) then none else win x
  have taken : ∀ x, Above x (pos + n) -> win' x = none := fun x above => if_pos above
  have left_ : ∀ x, ¬ Above x (pos + n) -> win' x = win x := fun x away => if_neg away
  refine ⟨win', ⟨tournament.leaf, ?_, ?_⟩, taken 1 rootAbove, ?_⟩
  · intro x low high a entered
    by_cases above : Above x (pos + n)
    · rw [taken x above] at entered
      cases entered
    · rw [left_ x above] at entered
      exact tournament.entered x low high a entered
  · intro x positive small
    have decided := tournament.inner x positive small
    by_cases above : Above x (pos + n)
    · rw [tournament.path won x positive (by omega) above] at decided
      obtain ⟨a, b, leftWon, rightWon, which, -, -⟩ := decided.of_winner
      have aAbove := (tournament.below (2 * x) (by omega) (by omega) a leftWon).2.1
      have bAbove := (tournament.below (2 * x + 1) (by omega) (by omega) b rightWon).2.1
      rcases which with ⟨isLeft, loser⟩ | ⟨isRight, loser⟩
      · rw [<- isLeft] at aAbove
        have away : ¬ Above (2 * x + 1) (pos + n) :=
          fun both => aAbove.disjoint both positive
        rw [taken x above, taken _ aAbove, left_ _ away, rightWon, loser]
        exact ⟨rfl, rfl⟩
      · rw [<- isRight] at bAbove
        have away : ¬ Above (2 * x) (pos + n) :=
          fun both => both.disjoint bAbove positive
        rw [taken x above, taken _ bAbove, left_ _ away, leftWon, loser]
        exact ⟨rfl, rfl⟩
    · have leftAway : ¬ Above (2 * x) (pos + n) := by
        intro below
        have up := below.parent
        rw [show 2 * x / 2 = x by omega] at up
        exact above up
      have rightAway : ¬ Above (2 * x + 1) (pos + n) := by
        intro below
        have up := below.parent
        rw [show (2 * x + 1) / 2 = x by omega] at up
        exact above up
      rw [left_ _ above, left_ _ leftAway, left_ _ rightAway]
      apply decided.congr
      · intro a leftWon
        apply kept
        rintro rfl
        exact leftAway (tournament.below _ (by omega) (by omega) a leftWon).2.1
      · intro b rightWon
        apply kept
        rintro rfl
        exact rightAway (tournament.below _ (by omega) (by omega) b rightWon).2.1
  · intro x low high
    by_cases here : x = pos + n
    · rw [if_pos here]
      exact taken x (here ▸ Above.refl _)
    · rw [if_neg here]
      apply left_
      intro above
      rcases above.cases with same | left | right
      · exact here same
      · have := left.le
        have := (tournament.below 1 (Nat.le_refl 1) (by omega) pos won).1
        omega
      · have := right.le
        have := (tournament.below 1 (Nat.le_refl 1) (by omega) pos won).1
        omega

/-- All entries have entered; with a single one there are no matches. -/
inductive Ready (key : Nat -> K) (n : Nat) (pTree : SLoserTreeInfo) : Prop where
  | single (one : n = 1) (totalEntries : pTree.totalEntries = 2)
      (root : pTree.pNode 0 = some 0)
  | tree (two : 2 ≤ n) (win : Nat -> Option Nat) (entered : Entered key n win pTree)
      (all : ∀ x, n ≤ x -> x < 2 * n -> win x = some (x - n))

theorem Entered.complete (entered : Entered key n win pTree)
    (all : ∀ x, n ≤ x -> x < 2 * n -> win x = some (x - n)) (x : Nat)
    (positive : 1 ≤ x) (small : x < 2 * n) : ∃ w, win x = some w := by
  induction measure : 2 * n - x using Nat.strongRecOn generalizing x with
  | ind _ hypothesis =>
    by_cases isLeaf : n ≤ x
    · exact ⟨_, all x isLeaf small⟩
    · obtain ⟨a, leftWon⟩ :=
        hypothesis (2 * n - 2 * x) (by omega) (2 * x) (by omega) (by omega) rfl
      obtain ⟨b, rightWon⟩ :=
        hypothesis (2 * n - (2 * x + 1)) (by omega) (2 * x + 1) (by omega) (by omega) rfl
      have decided := entered.tournament.inner x positive (by omega)
      rw [leftWon, rightWon] at decided
      rcases decided with ⟨winner, -, -⟩ | ⟨winner, -, -⟩
      · exact ⟨a, winner⟩
      · exact ⟨b, winner⟩

theorem Above.root (y : Nat) (positive : 1 ≤ y) : Above 1 y := by
  induction y using Nat.strongRecOn with
  | ind y hypothesis =>
    by_cases atRoot : y = 1
    · exact atRoot ▸ Above.refl 1
    · obtain ⟨k, reached⟩ := hypothesis (y / 2) (by omega) (by omega)
      exact ⟨k + 1, by rw [Nat.pow_succ', <- Nat.div_div_eq_div_mul, reached]⟩

theorem Ready.least (ready : Ready key n pTree) :
    ∃ w, pTree.pNode 0 = some w ∧ w < n ∧ ∀ b, b < n -> key w ≤ key b := by
  cases ready with
  | single one _ root =>
    refine ⟨0, root, by omega, ?_⟩
    intro b small
    obtain rfl : b = 0 := by omega
    exact le_refl _
  | tree two win entered all =>
    obtain ⟨w, won⟩ := entered.complete all 1 (Nat.le_refl 1) (by omega)
    obtain ⟨small, -, least⟩ :=
      entered.tournament.below 1 (Nat.le_refl 1) (by omega) w won
    refine ⟨w, entered.root w won, small, ?_⟩
    intro b bSmall
    have bound := least (b + n) (by omega) (by omega) (Above.root _ (by omega))
    rwa [Nat.add_sub_cancel] at bound

theorem Ready.adjust (ready : Ready key n pTree)
    (top : pTree.pNode 0 = some pos) (kept : ∀ a, a ≠ pos -> key' a = key a)
    (compares : Compares key' comparaFn n) :
    Ready key' n (tLoserTreeAdjust comparaFn pTree (pos + n)) := by
  cases ready with
  | single one totalEntries root =>
    refine .single one ?_ ?_
    · simp [tLoserTreeAdjust, totalEntries]
    · simp [tLoserTreeAdjust, totalEntries]
  | tree two win entered all =>
    obtain ⟨w, won⟩ := entered.complete all 1 (Nat.le_refl 1) (by omega)
    obtain rfl : w = pos := some.inj ((entered.root w won).symm.trans top)
    have small := (entered.tournament.below 1 (Nat.le_refl 1) (by omega) w won).1
    obtain ⟨out, tournament, rootOut, leaves⟩ :=
      entered.tournament.withdraw won two kept
    have outEntered : Entered key' n out pTree :=
      ⟨entered.numOfEntries, entered.totalEntries, entered.entries, tournament,
        fun _ won' => by rw [rootOut] at won'; cases won'⟩
    have waiting : out (w + n) = none := by
      rw [leaves (w + n) (by omega) (by omega), if_pos rfl]
    obtain ⟨win', entered', leaves'⟩ :=
      outEntered.adjust two compares (w + n) (by omega) (by omega) waiting
    refine .tree two win' entered' ?_
    intro x low high
    rw [leaves' x low high]
    by_cases here : x = w + n
    · rw [if_pos here, here]
    · rw [if_neg here, leaves x low high, if_neg here, all x low high]

theorem adjustFrom_entered
    (compares : Compares key comparaFn n) (two : 2 ≤ n) (left : Nat) (bounded : left ≤ n)
    (win : Nat -> Option Nat) (pTree : SLoserTreeInfo) (entered : Entered key n win pTree)
    (leaves : ∀ x, n ≤ x -> x < 2 * n -> win x = if x < n + left then none else some (x - n)) :
    Ready key n (adjustFrom comparaFn left pTree) := by
  induction left generalizing win pTree with
  | zero =>
    refine .tree two win entered ?_
    intro x low high
    rw [leaves x low high, if_neg (by omega)]
  | succ left hypothesis =>
    have waiting : win (n + left) = none := by
      rw [leaves _ (by omega) (by omega), if_pos (by omega)]
    obtain ⟨win', entered', leaves'⟩ :=
      entered.adjust two compares (n + left) (by omega) (by omega) waiting
    rw [adjustFrom, entered.numOfEntries]
    apply hypothesis (by omega) win' _ entered'
    intro x low high
    rw [leaves' x low high, leaves x low high]
    by_cases here : x = n + left
    · rw [if_pos here, if_neg (by omega), here]
    · rw [if_neg here]
      by_cases before : x < n + left
      · rw [if_pos (by omega), if_pos before]
      · rw [if_neg (by omega), if_neg before]

theorem init_entered : Entered key n (fun _ => none) (tLoserTreeInit n) := by
  refine ⟨rfl, rfl, ?_, ⟨?_, ?_, ?_⟩, ?_⟩
  · intro x o stored
    simp only [tLoserTreeInit] at stored
    split at stored
    · cases stored
    · split at stored
      · cases stored
        omega
      · cases stored
  · intro x low high
    simp [tLoserTreeInit, Nat.not_lt.mpr low, high]
  · intro x _ _ a entered
    cases entered
  · intro x positive small
    simp [Decided, tLoserTreeInit, small]
  · intro w won
    cases won

theorem create_ready (positive : 0 < n) (compares : Compares key comparaFn n) :
    Ready key n (tLoserTreeCreate n comparaFn) := by
  by_cases two : 2 ≤ n
  · apply adjustFrom_entered compares two n (Nat.le_refl n) _ _ init_entered
    intro x low high
    rw [if_pos (by omega)]
  · obtain rfl : n = 1 := by omega
    refine .single rfl ?_ ?_
    · simp [tLoserTreeCreate, adjustFrom, tLoserTreeAdjust, tLoserTreeInit]
    · simp [tLoserTreeCreate, adjustFrom, tLoserTreeAdjust, tLoserTreeInit]

end Tournament

end Luomi.Util.LoserTree
