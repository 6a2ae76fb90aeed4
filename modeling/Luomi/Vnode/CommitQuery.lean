import Luomi.Vnode.CommitFile

/-!
# What a commit reads from the cache of a meter

A query reads the rows of the cache from the commit position on, and it ends where the
rows of the window do.
-/

namespace Luomi.Vnode.CommitQuery

open CommitFile
open List (append_assoc append_nil drop_length length_drop mem_append nil_append)
open Option (bind_eq_bind bind_some pure_def some.inj)

def EndsAt (keyList : Int -> Int) (num key place : Int) : Prop :=
  -1 ≤ place ∧ place < num ∧ (∀ i, 0 ≤ i -> i ≤ place -> keyList i ≤ key) ∧
    ∀ i, place < i -> i < num -> key < keyList i

section

variable {keyList : Int -> Int} {num key : Int}
  (increasing : ∀ i j, 0 ≤ i -> i < j -> j < num -> keyList i < keyList j)

include increasing

theorem keyList_mono {i j : Int} (nonneg : 0 ≤ i) (least : i ≤ j) (inside : j < num) :
    keyList i ≤ keyList j := by
  rcases eq_or_lt_of_le least with rfl | less
  · exact le_rfl
  · exact (increasing i j nonneg less inside).le

theorem binarySearch_ends {fuel : Nat} {firstPos lastPos : Int} (lower : 0 ≤ firstPos)
    (order : firstPos ≤ lastPos) (upper : lastPos < num)
    (below : ∀ i, 0 ≤ i -> i < firstPos -> keyList i < key)
    (above : ∀ i, lastPos < i -> i < num -> key < keyList i) (enough : lastPos - firstPos < fuel) :
    (∃ place, Import.binarySearchDesc keyList key fuel firstPos lastPos = some place ∧
      EndsAt keyList num key place) ∧
    ∃ place, Import.binarySearchAsc keyList num key fuel firstPos lastPos = some place ∧
      ((0 ≤ place ∧ place < num ∧ (∀ i, 0 ≤ i -> i < place -> keyList i < key) ∧
        ∀ i, place ≤ i -> i < num -> key ≤ keyList i) ∨
        place = -1 ∧ ∀ i, 0 ≤ i -> i < num -> keyList i < key) := by
  have upTo : ∀ place, place < num -> keyList place < key -> ∀ i, 0 ≤ i -> i ≤ place ->
      keyList i < key :=
    fun place inside small i nonneg least =>
      (keyList_mono increasing nonneg least inside).trans_lt small
  have from' : ∀ place, 0 ≤ place -> key < keyList place -> ∀ i, place ≤ i -> i < num ->
      key < keyList i :=
    fun place nonneg large i least inside =>
      large.trans_le (keyList_mono increasing nonneg least inside)
  have found : ∀ place, 0 ≤ place -> place < num -> key = keyList place ->
      EndsAt keyList num key place ∧ (∀ i, 0 ≤ i -> i < place -> keyList i < key) ∧
        ∀ i, place ≤ i -> i < num -> key ≤ keyList i := by
    rintro place nonneg inside rfl
    exact ⟨⟨by omega, inside, fun i first least => keyList_mono increasing first least inside,
      fun i less => increasing place i nonneg less⟩,
      fun i first less => increasing i place first less inside,
      fun i least => keyList_mono increasing nonneg least⟩
  induction fuel generalizing firstPos lastPos with
  | zero => exact absurd enough (by push_cast; omega)
  | succ fuel ih =>
    push_cast at enough
    rw [Import.binarySearchDesc, Import.binarySearchAsc]
    rcases lt_trichotomy (keyList lastPos) key with beyond | last | before
    · have all := upTo lastPos upper beyond
      refine ⟨⟨lastPos, if_pos beyond.le, by omega, upper, fun i first least => (all i first least).le,
        above⟩, ?_⟩
      rw [if_neg (not_le.mpr (all firstPos lower order)), if_neg beyond.ne', if_pos beyond]
      by_cases top : num ≤ lastPos + 1
      · exact ⟨-1, if_pos top, .inr ⟨rfl, fun i first inside => all i first (by omega)⟩⟩
      · exact ⟨lastPos + 1, if_neg top, .inl ⟨by omega, by omega,
          fun i first less => all i first (by omega),
          fun i least inside => (above i (by omega) inside).le⟩⟩
    · obtain ⟨ends, starts⟩ := found lastPos (by omega) upper last.symm
      refine ⟨⟨lastPos, if_pos last.le, ends⟩, lastPos, ?_, .inl ⟨by omega, upper, starts⟩⟩
      rcases eq_or_lt_of_le order with rfl | less
      · exact if_pos last.ge
      · rw [if_neg (not_le.mpr (last ▸ increasing firstPos lastPos lower less upper)),
          if_pos last.symm]
    · rw [if_neg (not_le.mpr before)]
      rcases lt_trichotomy key (keyList firstPos) with front | first | behind
      · refine ⟨⟨firstPos - 1, ?_, by omega, by omega, fun i first least =>
          (below i first (by omega)).le, fun i less => from' firstPos lower front i (by omega)⟩,
          firstPos, if_pos front.le, .inl ⟨lower, by omega, below,
            fun i least inside => (from' firstPos lower front i least inside).le⟩⟩
        rw [if_neg front.ne, if_pos front]
      · obtain ⟨ends, starts⟩ := found firstPos lower (by omega) first
        exact ⟨⟨firstPos, if_pos first, ends⟩, firstPos, if_pos first.le,
          .inl ⟨lower, by omega, starts⟩⟩
      · have apart : firstPos < lastPos := lt_of_le_of_ne order (by rintro rfl; omega)
        rw [if_neg behind.ne', if_neg (not_lt.mpr behind.le), if_neg (not_le.mpr behind),
          if_neg before.ne, if_neg (not_lt.mpr before.le)]
        dsimp only
        have upperMid : (lastPos - firstPos + 1) / 2 + firstPos ≤ lastPos := by omega
        have lowerMid : firstPos < (lastPos - firstPos + 1) / 2 + firstPos := by omega
        generalize (lastPos - firstPos + 1) / 2 + firstPos = midPos at upperMid lowerMid
        rcases lt_trichotomy key (keyList midPos) with less | same | more
        · rw [if_pos less, if_pos less]
          exact ih lower (by omega) (by omega) below
            (fun i past => from' midPos (by omega) less i (by omega)) (by omega)
        · rw [if_neg same.not_lt, if_neg same.not_gt, if_neg same.not_lt, if_neg same.not_gt]
          obtain ⟨ends, starts⟩ := found midPos (by omega) (by omega) same
          exact ⟨⟨midPos, rfl, ends⟩, midPos, rfl, .inl ⟨by omega, by omega, starts⟩⟩
        · have room : midPos < lastPos :=
            lt_of_le_of_ne upperMid fun top => absurd (top ▸ more) (not_lt.mpr before.le)
          rw [if_neg (not_lt.mpr more.le), if_pos more, if_neg (not_lt.mpr more.le), if_pos more]
          exact ih (by omega) (by omega) upper
            (fun i first past => upTo midPos (by omega) more i first (by omega)) above (by omega)

end

section

variable (keyList : Int -> Int) (num key : Int) (some' : 0 < num)
  (increasing : ∀ i j, 0 ≤ i -> i < j -> j < num -> keyList i < keyList j)

include some' increasing

theorem vnodeBinarySearchKey_ends :
    ∃ place, Import.vnodeBinarySearchKey keyList num key false = some place ∧
      EndsAt keyList num key place := by
  rw [Import.vnodeBinarySearchKey, if_neg (by omega), if_neg Bool.false_ne_true]
  exact (binarySearch_ends increasing le_rfl (by omega) (by omega) (by omega) (by omega)
    (by push_cast; omega)).1

theorem vnodeBinarySearchKey_starts :
    ∃ place, Import.vnodeBinarySearchKey keyList num key true = some place ∧
      ((0 ≤ place ∧ place < num ∧ (∀ i, 0 ≤ i -> i < place -> keyList i < key) ∧
        ∀ i, place ≤ i -> i < num -> key ≤ keyList i) ∨
        place = -1 ∧ ∀ i, 0 ≤ i -> i < num -> keyList i < key) := by
  rw [Import.vnodeBinarySearchKey, if_neg (by omega), if_pos rfl]
  exact (binarySearch_ends increasing le_rfl (by omega) (by omega) (by omega) (by omega)
    (by push_cast; omega)).2

end

theorem EndsAt.take_drop {Row : Type} {settings : Settings Row} {rows : List Row}
    {key place : Int} (ends : EndsAt (keyAt settings rows) rows.length key place) :
    (∀ row ∈ rows.take (place + 1).toNat, settings.key row ≤ key) ∧
      ∀ row ∈ rows.drop (place + 1).toNat, key < settings.key row := by
  obtain ⟨lower, upper, small, large⟩ := ends
  have keyOf : ∀ i (inside : i < rows.length), keyAt settings rows i = settings.key rows[i] := by
    intro i inside
    simp [keyAt, inside]
  constructor
  · intro row member
    obtain ⟨i, inside, rfl⟩ := List.mem_iff_getElem.mp member
    rw [List.length_take] at inside
    rw [List.getElem_take, <- keyOf i (by omega)]
    exact small i (by omega) (by omega)
  · intro row member
    obtain ⟨i, inside, rfl⟩ := List.mem_iff_getElem.mp member
    rw [length_drop] at inside
    rw [List.getElem_drop, <- keyOf _ (by omega)]
    exact large _ (by omega) (by omega)

section Rows

variable {Row : Type}

def Placed (blocks : List (List Row)) (slot pos : Nat) : Prop :=
  blocks = [] ∨ ∃ block, blocks[slot]? = some block ∧ pos ≤ block.length

def left (blocks : List (List Row)) (slot pos : Nat) : List Row :=
  (blocks.drop slot).flatten.drop pos

variable {block : List Row} {blocks : List (List Row)} {pQuery : SQuery}
  {slot pos : Nat}

theorem left_eq (found : blocks[slot]? = some block) (inside : pos ≤ block.length) :
    left blocks slot pos = block.drop pos ++ left blocks (slot + 1) 0 := by
  obtain ⟨less, rfl⟩ := List.getElem?_eq_some_iff.mp found
  unfold left
  rw [List.drop_eq_getElem_cons less, List.flatten_cons, List.drop_append_of_le_length inside,
    List.drop_zero]

theorem left_behind (pos : Nat) (behind : blocks.length ≤ slot) : left blocks slot pos = [] := by
  unfold left
  rw [List.drop_eq_nil_of_le behind, List.flatten_nil, List.drop_nil]

theorem left_suffix (blocks : List (List Row)) (slot pos : Nat) :
    left blocks slot pos <:+ blocks.flatten := by
  have whole : blocks.flatten = (blocks.take slot).flatten ++ (blocks.drop slot).flatten := by
    rw [<- List.flatten_append, List.take_append_drop]
  rw [whole]
  exact (List.drop_suffix _ _).trans (List.suffix_append _ _)

theorem take_left {count : Nat}
    (found : blocks[slot]? = some block) (inside : pos + count ≤ block.length) :
    (block.drop pos).take count ++ left blocks slot (pos + count) = left blocks slot pos := by
  rw [left_eq found inside, left_eq found (by omega), <- append_assoc, <- List.drop_drop,
    List.take_append_drop]

theorem placed_next (less : slot + 1 < blocks.length) : Placed blocks (slot + 1) 0 :=
  Or.inr ⟨blocks[slot + 1], List.getElem?_eq_getElem less, Nat.zero_le _⟩

/-- The cache of a meter: no block holds more rows than it has room for, the keys increase,
and there is a row or the end of a block at the commit position. -/
structure CacheFits (settings : Settings Row) (pObj : SMeterObj Row) (pInfo : SCacheInfo Row) :
    Prop where
  fits : ∀ block ∈ pInfo.blocks, block.length ≤ pObj.pointsPerBlock
  increasing : pInfo.blocks.flatten.Pairwise fun row later => settings.key row < settings.key later
  placed : Placed pInfo.blocks pInfo.commitSlot pInfo.commitPoint

def uncommitted (pInfo : SCacheInfo Row) : List Row :=
  left pInfo.blocks pInfo.commitSlot pInfo.commitPoint

variable {settings : Settings Row} {pObj : SMeterObj Row} {pInfo : SCacheInfo Row}

/-- What a query reads, and where it is afterwards. -/
structure Read (settings : Settings Row) (pInfo : SCacheInfo Row) (ekey : Int) (pQuery : SQuery)
    (rows : List Row) (next : SQuery) : Prop where
  placed : Placed pInfo.blocks next.slot next.pos
  split : rows ++ left pInfo.blocks next.slot next.pos =
    left pInfo.blocks pQuery.slot pQuery.pos
  upTo : ∀ row ∈ rows, settings.key row ≤ ekey
  beyond : next.isOver = true ->
    ∀ row ∈ left pInfo.blocks next.slot next.pos, ekey < settings.key row
  met : next.keyIsMet = true -> next.isOver = true

def distance (pInfo : SCacheInfo Row) (pQuery : SQuery) : Nat :=
  (left pInfo.blocks pQuery.slot pQuery.pos).length + (pInfo.blocks.length - pQuery.slot)

variable {ekey : Int}

theorem Read.trans {next last : SQuery} {rows more : List Row}
    (first : Read settings pInfo ekey pQuery rows next)
    (second : Read settings pInfo ekey next more last) :
    Read settings pInfo ekey pQuery (rows ++ more) last where
  placed := second.placed
  split := by rw [append_assoc, second.split, first.split]
  upTo := by
    intro row member
    rcases mem_append.mp member with front | back
    · exact first.upTo row front
    · exact second.upTo row back
  beyond := second.beyond
  met := second.met

theorem vnodeUpdateQuerySlotPos_reads (ekey : Int) (pQuery : SQuery)
    (found : pInfo.blocks[pQuery.slot]? = some block) (atEnd : pQuery.pos = block.length)
    (going : pQuery.isOver = false) (notMet : pQuery.keyIsMet = false) :
    Read settings pInfo ekey pQuery [] (vnodeUpdateQuerySlotPos pInfo pQuery) ∧
      ((vnodeUpdateQuerySlotPos pInfo pQuery).isOver = false ->
        distance pInfo (vnodeUpdateQuerySlotPos pInfo pQuery) < distance pInfo pQuery) := by
  have less := (List.getElem?_eq_some_iff.mp found).1
  have here : left pInfo.blocks pQuery.slot pQuery.pos = left pInfo.blocks (pQuery.slot + 1) 0 := by
    rw [left_eq found atEnd.le, atEnd, drop_length, nil_append]
  unfold vnodeUpdateQuerySlotPos
  by_cases current : pQuery.slot + 1 = pInfo.blocks.length
  · have empty : left pInfo.blocks pQuery.slot pQuery.pos = [] := by
      rw [here, left_behind 0 current.ge]
    rw [if_pos current]
    refine ⟨⟨Or.inr ⟨block, found, atEnd.le⟩, rfl, by simp, ?_, ?_⟩, by simp⟩
    · intro _ row member
      rw [empty] at member
      simp at member
    · simp
  · rw [if_neg current]
    refine ⟨⟨placed_next (by omega), ?_, by simp, ?_, ?_⟩, ?_⟩
    · rw [nil_append, here]
    · intro isOver
      exact absurd (isOver.symm.trans going) (by simp)
    · intro met
      rw [notMet] at met
      exact absurd met Bool.false_ne_true
    · intro _
      unfold distance
      rw [here]
      dsimp only
      omega

theorem reads_on (fits : CacheFits settings pObj pInfo) {count : Nat}
    (found : pInfo.blocks[slot]? = some block) (some' : 0 < count)
    (inside : pos + count ≤ block.length)
    (upTo : ∀ row ∈ (block.drop pos).take count, settings.key row ≤ ekey) {next : SQuery}
    (next_eq : next = if pObj.pointsPerBlock ≤ pos + count then
      vnodeUpdateQuerySlotPos pInfo ⟨slot, pos + count, false, false⟩
      else ⟨slot, pos + count, false, false⟩) :
    Read settings pInfo ekey ⟨slot, pos, false, false⟩ ((block.drop pos).take count) next ∧
      (next.isOver = false -> distance pInfo next < distance pInfo ⟨slot, pos, false, false⟩) := by
  have rest := take_left found inside
  have taken : ((block.drop pos).take count).length = count := by
    rw [List.length_take, length_drop]
    omega
  have here : Read settings pInfo ekey ⟨slot, pos, false, false⟩ ((block.drop pos).take count)
      ⟨slot, pos + count, false, false⟩ :=
    ⟨Or.inr ⟨block, found, inside⟩, rest, upTo, by simp, by simp⟩
  have shorter : distance pInfo ⟨slot, pos + count, false, false⟩ <
      distance pInfo ⟨slot, pos, false, false⟩ := by
    unfold distance
    dsimp only
    rw [<- rest, List.length_append, taken]
    omega
  by_cases full : pObj.pointsPerBlock ≤ pos + count
  · have atEnd : pos + count = block.length :=
      le_antisymm inside ((fits.fits block (List.mem_of_getElem? found)).trans full)
    obtain ⟨reads, further⟩ := vnodeUpdateQuerySlotPos_reads ekey
      ⟨slot, pos + count, false, false⟩ found atEnd rfl rfl
    rw [next_eq, if_pos full]
    refine ⟨?_, fun going => (further going).trans shorter⟩
    have both := here.trans reads
    rwa [append_nil] at both
  · rw [next_eq, if_neg full]
    exact ⟨here, fun _ => shorter⟩

theorem keyAt_increasing {rows : List Row}
    (increasing : rows.Pairwise fun row later => settings.key row < settings.key later) (i j : Int)
    (nonneg : 0 ≤ i) (less : i < j) (inside : j < rows.length) :
    keyAt settings rows i < keyAt settings rows j := by
  have before : i.toNat < rows.length := by omega
  have after : j.toNat < rows.length := by omega
  have order := List.pairwise_iff_getElem.mp increasing i.toNat j.toNat before after (by omega)
  simpa [keyAt, before, after] using order

theorem newest_row
    (increasing : (block.drop pos).Pairwise fun row later => settings.key row < settings.key later)
    (some' : pos < block.length) :
    ∃ row ∈ block.drop pos, settings.key row = keyAt settings block (block.length - 1) ∧
      ∀ other ∈ block.drop pos, settings.key other ≤ settings.key row := by
  have nonempty : block.drop pos ≠ [] := by
    simpa using some'
  have split := List.dropLast_append_getLast nonempty
  refine ⟨(block.drop pos).getLast nonempty, List.getLast_mem nonempty, ?_, ?_⟩
  · have place : ((block.length : Int) - 1).toNat = block.length - 1 := by omega
    rw [List.getLast_drop, List.getLast_eq_getElem]
    simp [keyAt, place, some'.pos]
  · intro other member
    rw [<- split] at member increasing
    rcases mem_append.mp member with front | back
    · exact ((List.pairwise_append.mp increasing).2.2 other front _ (List.mem_singleton_self _)).le
    · rw [List.mem_singleton.mp back]

theorem vnodeQueryFromCache_reads (fits : CacheFits settings pObj pInfo) (ekey : Int)
    {pointsToRead : Nat} (some' : 0 < pointsToRead)
    (placed : Placed pInfo.blocks pQuery.slot pQuery.pos) (going : pQuery.isOver = false)
    (notMet : pQuery.keyIsMet = false) : ∃ rows next,
      vnodeQueryFromCache settings pObj pInfo ekey pointsToRead pQuery = some (rows, next) ∧
        Read settings pInfo ekey pQuery rows next ∧ rows.length ≤ pointsToRead ∧
        (next.isOver = false -> distance pInfo next < distance pInfo pQuery) := by
  obtain ⟨slot, pos, isOver, keyIsMet⟩ := pQuery
  dsimp only at going notMet placed
  subst going notMet
  unfold vnodeQueryFromCache
  rw [if_neg Bool.false_ne_true]
  by_cases empty : pInfo.blocks = []
  · rw [if_pos empty]
    refine ⟨[], _, rfl, ⟨placed, rfl, by simp, ?_, by simp⟩, Nat.zero_le _, by simp⟩
    intro _ row member
    rw [left_behind _ (by simp [empty])] at member
    simp at member
  rw [if_neg empty]
  obtain none' | ⟨block, found, inside⟩ := placed
  · exact absurd none' empty
  rw [found]
  simp only [bind_eq_bind, bind_some, pure_def, Bool.false_or]
  by_cases atEnd : ((block.length : Int) - pos) ≤ 0
  · rw [if_pos atEnd]
    obtain ⟨reads, shorter⟩ := vnodeUpdateQuerySlotPos_reads ekey
      ⟨slot, pos, false, false⟩ found (by dsimp only; omega) rfl rfl
    exact ⟨[], _, rfl, reads, Nat.zero_le _, shorter⟩
  rw [if_neg atEnd]
  have rowsLength : ((block.drop pos).length : Int) = block.length - pos := by
    rw [length_drop]
    omega
  have increasing := fits.increasing.sublist (left_suffix pInfo.blocks slot pos).sublist
  rw [left_eq found inside, List.pairwise_append] at increasing
  obtain ⟨inBlock, -, across⟩ := increasing
  obtain ⟨newest, newest_mem, newest_key, newest_last⟩ := newest_row inBlock (by omega)
  rw [<- newest_key]
  have few : ∀ count, ((block.drop pos).take count).length ≤ count := fun count =>
    List.length_take_le count _
  -- some rows are read, and the end is not met
  have goOn : ∀ count : Nat, 0 < count -> pos + count ≤ block.length -> count ≤ pointsToRead ->
      (∀ row ∈ (block.drop pos).take count, settings.key row ≤ ekey) ->
      ∃ rows next, (if pObj.pointsPerBlock ≤ pos + count ∨ (count : Int) = 0 then
          some ((block.drop pos).take count,
            vnodeUpdateQuerySlotPos pInfo ⟨slot, pos + count, false, false⟩)
        else some ((block.drop pos).take count, ⟨slot, pos + count, false, false⟩)) =
          some (rows, next) ∧
        Read settings pInfo ekey ⟨slot, pos, false, false⟩ rows next ∧
        rows.length ≤ pointsToRead ∧
        (next.isOver = false -> distance pInfo next <
          distance pInfo ⟨slot, pos, false, false⟩) := by
    intro count some'' inside' atMost upTo
    obtain ⟨reads, shorter⟩ := reads_on fits found some'' inside' upTo rfl
    refine ⟨_, _, ?_, reads, (few count).trans atMost, shorter⟩
    by_cases full : pObj.pointsPerBlock ≤ pos + count
    · simp only [full, true_or, if_true]
    · simp only [full, false_or, if_false]
      rw [if_neg (by omega)]
  by_cases early : settings.key newest < ekey
  · -- the whole block is before the end
    have upTo : ∀ count, ∀ row ∈ (block.drop pos).take count, settings.key row ≤ ekey := by
      intro count row member
      exact (newest_last row (List.mem_of_mem_take member)).trans early.le
    simp only [if_pos early]
    by_cases more : (pointsToRead : Int) < block.length - pos
    · have result := goOn pointsToRead some' (by omega) le_rfl (upTo pointsToRead)
      simpa [more] using result
    · have count_eq : ((block.length : Int) - pos) = (block.length - pos : Nat) := by omega
      have result := goOn (block.length - pos) (by omega) (by omega) (by omega) (upTo _)
      rw [count_eq] at more ⊢
      have nonzero : ¬ ((block.length - pos : Nat) : Int) = 0 := by omega
      simpa only [more, nonzero, if_false, Int.toNat_natCast, and_false, decide_false, or_false,
        and_true,
        show ¬ (0 : Int) ≤ -1 by decide, not_false_eq_true, true_and] using result
  · simp only [if_neg early]
    obtain ⟨place, search, ends⟩ := vnodeBinarySearchKey_ends
      (keyAt settings (block.drop pos)) ((block.length : Int) - pos) ekey
      (by omega) (by
        rw [<- rowsLength]
        exact keyAt_increasing inBlock)
    rw [search]
    rw [<- rowsLength] at ends
    obtain ⟨small, large⟩ := ends.take_drop
    obtain ⟨lower, upper, -, -⟩ := ends
    have found_eq : (if 0 ≤ place then place + 1 else 0) = ((place + 1).toNat : Int) := by
      split <;> omega
    simp only [bind_some, found_eq]
    by_cases more : (pointsToRead : Int) < (place + 1).toNat
    · have within : (block.drop pos).take pointsToRead <+: (block.drop pos).take (place + 1).toNat :=
        List.take_prefix_take_left (by omega)
      have result := goOn pointsToRead some' (by omega) le_rfl fun row member =>
        small row (within.subset member)
      simpa only [more, if_true, not_true, Int.toNat_natCast, false_and, decide_false,
        and_true] using result
    · have met : 0 ≤ place ∨ ((place + 1).toNat : Int) = 0 := by omega
      have inside' : pos + (place + 1).toNat ≤ block.length := by omega
      simp only [more, met, if_false, not_false_eq_true, true_and, decide_true,
        Bool.true_eq_false, and_false, Int.toNat_natCast]
      refine ⟨_, _, rfl, ⟨Or.inr ⟨block, found, inside'⟩, take_left found inside', small, ?_,
        fun _ => rfl⟩, (few _).trans (by omega), fun going => absurd going (by simp)⟩
      intro _ row member
      dsimp only at member
      rw [left_eq found inside', <- List.drop_drop] at member
      rcases mem_append.mp member with here | later
      · exact large row here
      · have less := across newest newest_mem row later
        omega

theorem Read.refl (placed : Placed pInfo.blocks pQuery.slot pQuery.pos)
    (going : pQuery.isOver = false) (notMet : pQuery.keyIsMet = false) :
    Read settings pInfo ekey pQuery [] pQuery where
  placed := placed
  split := rfl
  upTo := by simp
  beyond := by simp [going]
  met := by simp [notMet]

theorem fillBlock_reads (fits : CacheFits settings pObj pInfo) (ekey : Int) {fuel : Nat}
    (buffer : List Row) (placed : Placed pInfo.blocks pQuery.slot pQuery.pos)
    (going : pQuery.isOver = false) (notMet : pQuery.keyIsMet = false)
    (enough : distance pInfo pQuery < fuel) :
    ∃ rows next, fillBlock settings pObj pInfo ekey fuel buffer pQuery = some (buffer ++ rows, next) ∧
      Read settings pInfo ekey pQuery rows next ∧ (buffer.length ≤ pObj.pointsPerFileBlock ->
        (buffer ++ rows).length ≤ pObj.pointsPerFileBlock) ∧
      (next.isOver = false -> pObj.pointsPerFileBlock ≤ (buffer ++ rows).length) := by
  induction fuel generalizing buffer pQuery with
  | zero => exact absurd enough (Nat.not_lt_zero _)
  | succ fuel ih =>
    unfold fillBlock
    by_cases room : buffer.length < pObj.pointsPerFileBlock
    · rw [if_pos room]
      obtain ⟨rows, next, run, reads, few, shorter⟩ := vnodeQueryFromCache_reads fits
        ekey (Nat.sub_pos_of_lt room) placed going notMet
      simp only [run, bind_eq_bind, bind_some, pure_def]
      have atMost : (buffer ++ rows).length ≤ pObj.pointsPerFileBlock := by
        rw [List.length_append]
        omega
      cases isOver : next.isOver with
      | true =>
        refine ⟨rows, next, by simp, reads, fun _ => atMost, ?_⟩
        simp [isOver]
      | false =>
        have unmet : next.keyIsMet = false := by
          cases met : next.keyIsMet with
          | false => rfl
          | true => exact (isOver.symm.trans (reads.met met)).symm
        obtain ⟨more, last, run', reads', atMost', full⟩ := ih (buffer ++ rows)
          reads.placed isOver unmet (by have := shorter isOver; omega)
        rw [append_assoc] at run' atMost' full
        rw [if_neg Bool.false_ne_true]
        exact ⟨rows ++ more, last, run', reads.trans reads', fun _ => atMost' atMost, full⟩
    · rw [if_neg room]
      refine ⟨[], pQuery, by rw [append_nil], Read.refl placed going notMet, ?_, ?_⟩
      · rw [append_nil]
        exact id
      · intro _
        rw [append_nil]
        omega

/-- A query at the first row that is not committed; it is over where there is none, or
where this one is before the window. -/
structure Start (settings : Settings Row) (pInfo : SCacheInfo Row) (skey : Int)
    (pQuery : SQuery) : Prop where
  placed : Placed pInfo.blocks pQuery.slot pQuery.pos
  split : left pInfo.blocks pQuery.slot pQuery.pos = uncommitted pInfo
  notMet : pQuery.keyIsMet = false
  isOver : pQuery.isOver = true ↔ ∀ row ∈ (uncommitted pInfo).head?, settings.key row < skey

theorem vnodeSetCommitQuery_starts (fits : CacheFits settings pObj pInfo) {skey : Int}
    {small : Option Int}
    (run : vnodeSetCommitQuery settings pObj pInfo skey = some (pQuery, small)) :
    Start settings pInfo skey pQuery := by
  unfold vnodeSetCommitQuery at run
  by_cases empty : pInfo.blocks = []
  · have none' : uncommitted pInfo = [] := left_behind _ (by simp [empty])
    rw [if_pos empty] at run
    obtain ⟨rfl, rfl⟩ := Prod.mk.inj (some.inj run)
    exact ⟨Or.inl empty, rfl, rfl, by simp [none']⟩
  rw [if_neg empty] at run
  obtain absurd' | ⟨block, found, inside⟩ := fits.placed
  · exact absurd absurd' empty
  simp only [found, bind_eq_bind, bind_some, pure_def] at run
  by_cases atEnd : pInfo.commitSlot + 1 = pInfo.blocks.length ∧ pInfo.commitPoint = block.length
  · have none' : uncommitted pInfo = [] := by
      unfold uncommitted
      rw [left_eq found inside, atEnd.2, drop_length, left_behind 0 atEnd.1.ge, append_nil]
    rw [if_pos atEnd] at run
    obtain ⟨rfl, rfl⟩ := Prod.mk.inj (some.inj run)
    exact ⟨Or.inr ⟨block, found, inside⟩, rfl, rfl, by simp [none']⟩
  rw [if_neg atEnd] at run
  -- at the end of a full block the query goes to the next one
  obtain ⟨slot, pos, place, split⟩ : ∃ slot pos,
      (if pInfo.commitPoint = pObj.pointsPerBlock then
        (⟨pInfo.commitSlot + 1, 0, false, false⟩ : SQuery)
        else ⟨pInfo.commitSlot, pInfo.commitPoint, false, false⟩) = ⟨slot, pos, false, false⟩ ∧
      left pInfo.blocks slot pos = uncommitted pInfo := by
    by_cases full : pInfo.commitPoint = pObj.pointsPerBlock
    · refine ⟨_, _, if_pos full, ?_⟩
      have atEnd' : pInfo.commitPoint = block.length :=
        le_antisymm inside (full ▸ fits.fits block (List.mem_of_getElem? found))
      unfold uncommitted
      rw [left_eq found inside, atEnd', drop_length, nil_append]
    · exact ⟨_, _, if_neg full, rfl⟩
  simp only [place] at run
  cases here : pInfo.blocks[slot]? with
  | none => simp [here] at run
  | some block' =>
    simp only [here, bind_some] at run
    cases first : block'[pos]? with
    | none => simp [first] at run
    | some row =>
      have inside' := (List.getElem?_eq_some_iff.mp first).1
      have placed : Placed pInfo.blocks slot pos := Or.inr ⟨block', here, inside'.le⟩
      have head : (uncommitted pInfo).head? = some row := by
        rw [<- split, left_eq here inside'.le, List.head?_append, List.head?_drop, first,
          Option.some_or]
      simp only [first, bind_some] at run
      by_cases less : settings.key row < skey
      · rw [if_pos less] at run
        obtain ⟨rfl, rfl⟩ := Prod.mk.inj (some.inj run)
        exact ⟨placed, split, rfl, by simp [head, less]⟩
      · rw [if_neg less] at run
        obtain ⟨rfl, rfl⟩ := Prod.mk.inj (some.inj run)
        exact ⟨placed, split, rfl, by simpa [head] using less⟩

end Rows

end Luomi.Vnode.CommitQuery
