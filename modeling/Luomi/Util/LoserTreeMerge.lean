import Luomi.Base.KeyedMerge
import Luomi.Util.LoserTree

/-!
# Merging through the loser tree

The caller's comparison sees the current keys of the sources.  Whatever it makes of
them, as long as it orders them, the top of the tree is a least one; so a merge that
takes from the top and lets the source play again is in order.
-/

namespace Luomi.Util.LoserTree

open KeyedMerge
open Function (update update_of_ne update_self)

variable {K : Type} {cmp : K -> K -> Int} {n : Nat}

structure TotalPreorder (cmp : K -> K -> Int) : Prop where
  signs : ∀ x y, cmp x y < 0 ↔ 0 < cmp y x
  trans : ∀ x y z, cmp x y ≤ 0 -> cmp y z ≤ 0 -> cmp x z ≤ 0

def comparison (cmp : K -> K -> Int) (key : Nat -> K) (a b : Nat) : Int := cmp (key a) (key b)

/-- The trees the calls lead to, with the current keys: a tree is created, and then the
source on top gets another key and its leaf is adjusted. -/
inductive Turns (cmp : K -> K -> Int) (n : Nat) : (Nat -> K) -> SLoserTreeInfo -> Prop
  | created (key : Nat -> K) : Turns cmp n key (tLoserTreeCreate n (comparison cmp key))
  | adjusted {key : Nat -> K} {pTree : SLoserTreeInfo} {top : Nat} (before : Turns cmp n key pTree)
      (isTop : pTree.pNode 0 = some top) (next : K) :
      Turns cmp n (update key top next)
        (tLoserTreeAdjust (comparison cmp (update key top next)) pTree (top + n))

def Minimal (cmp : K -> K -> Int) (n : Nat) (key : Nat -> K) (pTree : SLoserTreeInfo) : Prop :=
  ∃ top, pTree.pNode 0 = some top ∧ top < n ∧ ∀ b, b < n -> cmp (key top) (key b) ≤ 0

def upTo (cmp : K -> K -> Int) (x : K) : Set K := {y | cmp y x ≤ 0}

section

variable (order : TotalPreorder cmp)
include order

theorem TotalPreorder.upTo_le {x y : K} : upTo cmp x ≤ upTo cmp y ↔ cmp x y ≤ 0 := by
  constructor
  · intro subset
    have signs := order.signs x x
    have own : cmp x x ≤ 0 := by omega
    exact subset own
  · intro small z member
    exact order.trans z x y member small

theorem TotalPreorder.compares (key : Nat -> K) (n : Nat) :
    Compares (fun a => upTo cmp (key a)) (comparison cmp key) n := by
  intro a b _ _
  have signs := order.signs (key a) (key b)
  refine ⟨fun less => order.upTo_le.mpr less.le, fun notLess => order.upTo_le.mpr ?_⟩
  exact Int.not_lt.mp fun more => notLess (signs.mpr more)

section

variable {key : Nat -> K} {pTree : SLoserTreeInfo}

theorem Ready.minimal (ready : Ready (fun a => upTo cmp (key a)) n pTree) :
    Minimal cmp n key pTree := by
  obtain ⟨top, isTop, small, least⟩ := ready.least
  exact ⟨top, isTop, small, fun b inside => order.upTo_le.mp (least b inside)⟩

theorem Ready.turn {top : Nat} (ready : Ready (fun a => upTo cmp (key a)) n pTree)
    (isTop : pTree.pNode 0 = some top) (next : K) :
    Ready (fun a => upTo cmp (update key top next a)) n
      (tLoserTreeAdjust (comparison cmp (update key top next)) pTree (top + n)) := by
  refine ready.adjust isTop (fun a other => ?_) (order.compares _ n)
  rw [update_of_ne other]

theorem Turns.ready (positive : 0 < n) (turns : Turns cmp n key pTree) :
    Ready (fun a => upTo cmp (key a)) n pTree := by
  induction turns with
  | created key => exact create_ready positive (order.compares key n)
  | adjusted _ isTop next ih => exact ih.turn order isTop next

end

end

def compareHeads (cmp : K -> K -> Int) : Option K -> Option K -> Int
  | some x, some y => cmp x y
  | some _, none => -1
  | none, some _ => 1
  | none, none => 0

theorem TotalPreorder.heads (order : TotalPreorder cmp) : TotalPreorder (compareHeads cmp) := by
  constructor
  · rintro (_ | x) (_ | y)
    all_goals simp only [compareHeads]
    all_goals first | omega | exact order.signs x y
  · rintro (_ | x) (_ | y) (_ | z) first second
    all_goals simp only [compareHeads] at first second ⊢
    all_goals first | omega | exact order.trans x y z first second

def heads (sources : Nat -> List K) (taken : Nat -> Nat) (a : Nat) : Option K :=
  (sources a)[taken a]?

def mergeFrom (cmp : K -> K -> Int) (n : Nat) (sources : Nat -> List K) :
    Nat -> (Nat -> Nat) -> SLoserTreeInfo -> List (Nat × K)
  | 0, _, _ => []
  | left + 1, taken, pTree =>
    match pTree.pNode 0 with
    | none => []
    | some top =>
      match heads sources taken top with
      | none => []
      | some item =>
        let taken := update taken top (taken top + 1)
        (top, item) :: mergeFrom cmp n sources left taken
          (tLoserTreeAdjust (comparison (compareHeads cmp) (heads sources taken)) pTree (top + n))

def merge (cmp : K -> K -> Int) (n : Nat) (sources : Nat -> List K) : List (Nat × K) :=
  mergeFrom cmp n sources (∑ b ∈ Finset.range n, (sources b).length) (fun _ => 0)
    (tLoserTreeCreate n (comparison (compareHeads cmp) (heads sources fun _ => 0)))

structure MergedAll (cmp : K -> K -> Int) (n : Nat) (sources : Nat -> List K)
    (merged : List (Nat × K)) : Prop where
  source : ∀ draw ∈ merged, draw.1 < n
  all : ∀ b, b < n -> (merged.filter fun draw => draw.1 = b).map Prod.snd = sources b
  sorted : (merged.map Prod.snd).Pairwise fun x y => cmp x y ≤ 0

variable {sources : Nat -> List K}
  {taken : Nat -> Nat}

theorem heads_update {top : Nat} : heads sources (update taken top (taken top + 1)) =
      update (heads sources taken) top ((sources top)[taken top + 1]?) := by
  funext a
  unfold heads
  by_cases same : a = top
  · rw [same, update_self, update_self]
  · rw [update_of_ne same, update_of_ne same]

theorem mergeFrom_merged (order : TotalPreorder cmp) {left : Nat}
    {pTree : SLoserTreeInfo} {drawn : List (Nat × K)}
    (merged : Merged (upTo cmp) n sources taken drawn)
    (ready : Ready (fun a => upTo (compareHeads cmp) (heads sources taken a)) n pTree)
    (open_ : drawn.length + left = ∑ b ∈ Finset.range n, (sources b).length) :
    ∃ last, Merged (upTo cmp) n sources last (drawn ++ mergeFrom cmp n sources left taken pTree) ∧
      (drawn ++ mergeFrom cmp n sources left taken pTree).length =
        ∑ b ∈ Finset.range n, (sources b).length := by
  induction left generalizing taken pTree drawn with
  | zero =>
    rw [mergeFrom, List.append_nil]
    exact ⟨taken, merged, open_⟩
  | succ left ih =>
    obtain ⟨top, isTop, inside, least⟩ := ready.minimal order.heads
    obtain ⟨b, waiting, small, isWaiting⟩ := merged.left_over (by omega)
    -- the top is not used up, as some source is not
    obtain ⟨item, isItem⟩ : ∃ item, heads sources taken top = some item := by
      apply Option.ne_none_iff_exists'.mp
      intro empty
      have first := least b small
      rw [empty, heads, isWaiting] at first
      simp only [compareHeads] at first
      omega
    have drawnNext := Merged.draw merged inside isItem fun b other small isOther => by
      have first := least b small
      rw [isItem, heads, isOther] at first
      exact order.upTo_le.mpr first
    have readyNext := ready.turn order.heads isTop ((sources top)[taken top + 1]?)
    rw [<- heads_update] at readyNext
    have rest := ih drawnNext readyNext (by rw [List.length_append, List.length_singleton]; omega)
    rw [mergeFrom, isTop]
    simp only [isItem]
    rw [List.append_assoc] at rest
    exact rest

theorem merge_all (order : TotalPreorder cmp) (positive : 0 < n)
    (sorted : ∀ b, b < n -> (sources b).Pairwise fun x y => cmp x y ≤ 0) :
    MergedAll cmp n sources (merge cmp n sources) := by
  have ready := create_ready positive (order.heads.compares (heads sources fun _ => 0) n)
  obtain ⟨last, merged, full⟩ := mergeFrom_merged order Merged.start ready (Nat.zero_add _)
  rw [List.nil_append] at merged full
  change Merged _ _ _ _ (merge cmp n sources) at merged
  refine ⟨fun draw member => (merged.source_lt draw member).1, fun b inside => ?_, ?_⟩
  · rw [merged.of_source b, merged.complete full b inside, List.take_length]
  · have inOrder := merged.ordered fun b inside =>
      (sorted b inside).imp fun small => order.upTo_le.mpr small
    exact inOrder.imp fun small => order.upTo_le.mp small

/-- The top is least after the creation and after every turn, so merges are sorted and
complete. -/
theorem tree_merges (order : TotalPreorder cmp) (positive : 0 < n) :
    (∀ key pTree, Turns cmp n key pTree -> Minimal cmp n key pTree) ∧
      ∀ sources : Nat -> List K, (∀ b, b < n -> (sources b).Pairwise fun x y => cmp x y ≤ 0) ->
        MergedAll cmp n sources (merge cmp n sources) :=
  ⟨fun _ _ turns => (turns.ready order positive).minimal order,
    fun _ sorted => merge_all order positive sorted⟩

theorem tree_merges_three : MergedAll (fun x y : Int => x - y) 3 (fun b => [(b : Int), 5])
      (merge (fun x y : Int => x - y) 3 fun b => [(b : Int), 5]) := by
  refine (tree_merges ⟨fun x y => ?_, fun x y z => ?_⟩ (by decide)).2 _ ?_
  · omega
  · omega
  · decide

end Luomi.Util.LoserTree
