import Luomi.Util.Timer

/-!
# Whose timers a stop and a reset touch

While every stop and every reset is called with a current handle, the block that a
handle leads to is free or has a timer of its user, and the timers of the others stay.
-/

namespace Luomi.Timer

open Function (update update_of_ne update_self)

/-- What every step keeps: free blocks have no timer, a block with a timer is in the list
of its index, and a handle whose timer is still there leads to a timer of its user. -/
structure Sound (ctrl : TmrCtrl) : Prop where
  start : ctrl.pool.first < ctrl.pool.numOfBlock
  distinct : (freeBlocks ctrl.pool).Nodup
  range : ∀ block ∈ freeBlocks ctrl.pool, block < ctrl.pool.numOfBlock
  idle : ∀ block ∈ freeBlocks ctrl.pool, (ctrl.memory block).timerId = none
  listed : ∀ index block, block ∈ ctrl.tmrList index ↔
    (ctrl.memory block).timerId = some block ∧ (ctrl.memory block).index = index
  once : ∀ index, (ctrl.tmrList index).Nodup
  inside : ∀ block, (ctrl.memory block).timerId = some block -> block < ctrl.pool.numOfBlock
  mine : ∀ user block serial, ctrl.handles user = some (block, serial) ->
    (ctrl.memory block).timerId = some block -> (ctrl.memory block).serial = serial ->
    (ctrl.memory block).owner = user
  past : ∀ user block serial, ctrl.handles user = some (block, serial) -> serial < ctrl.started

structure Detached (ctrl : TmrCtrl) (block : Nat) : Prop where
  taken : block ∉ freeBlocks ctrl.pool
  below : block < ctrl.pool.numOfBlock
  idle : (ctrl.memory block).timerId = none

section Lists

variable {memory : Nat -> TmrObj} {cycle : Int16} {user block : Nat} {pList : List Nat}

theorem insertNode_perm : (insertNode memory cycle block pList).Perm (block :: pList) := by
  induction pList with
  | nil => exact List.Perm.refl _
  | cons cNode rest ih =>
    unfold insertNode
    split
    · exact (ih.cons cNode).trans (List.Perm.swap block cNode rest)
    · exact List.Perm.refl _

variable {keep : Nat -> Bool}

theorem filter_insertNode (left : keep block = false) :
    (insertNode memory cycle block pList).filter keep = pList.filter keep := by
  induction pList with
  | nil => exact List.filter_cons_of_neg (by rw [left]; exact Bool.false_ne_true)
  | cons cNode rest ih =>
    unfold insertNode
    split
    · rw [List.filter_cons, List.filter_cons, ih]
    · exact List.filter_cons_of_neg (by rw [left]; exact Bool.false_ne_true)

theorem filter_erase (left : keep block = false) :
    (pList.erase block).filter keep = pList.filter keep := by
  induction pList with
  | nil => rfl
  | cons first rest ih =>
    rw [List.erase_cons]
    split
    next same =>
      rw [eq_of_beq same, List.filter_cons_of_neg]
      rw [left]
      exact Bool.false_ne_true
    next differs => rw [List.filter_cons, List.filter_cons, ih]

theorem othersIn_update (obj : TmrObj) (absent : block ∉ pList) :
    othersIn (update memory block obj) user pList = othersIn memory user pList := by
  have same : ∀ other ∈ pList, update memory block obj other = memory other := by
    intro other member
    exact update_of_ne (fun own => absent (by rw [<- own]; exact member)) _ _
  have sameOwner : pList.filter (fun other => (update memory block obj other).owner != user) =
      pList.filter fun other => (memory other).owner != user := by
    apply List.filter_congr
    intro other member
    rw [same other member]
  unfold othersIn
  rw [sameOwner]
  apply List.map_congr_left
  intro other member
  rw [same other (List.mem_of_mem_filter member)]

theorem othersIn_erase (own : (memory block).owner = user) :
    othersIn memory user (pList.erase block) = othersIn memory user pList := by
  have left : ((memory block).owner != user) = false := by rw [own, bne_self_eq_false]
  exact congrArg (List.map _) (filter_erase left)

theorem othersIn_insert {obj : TmrObj} (absent : block ∉ pList) (own : obj.owner = user) :
    othersIn (update memory block obj) user (insertNode memory cycle block pList) =
      othersIn memory user pList := by
  have left : ((update memory block obj block).owner != user) = false := by
    rw [update_self, own, bne_self_eq_false]
  rw [<- othersIn_update obj absent]
  exact congrArg (List.map _) (filter_insertNode left)

end Lists

variable {ctrl : TmrCtrl}

theorem Sound.malloc (sound : Sound ctrl) : tmrMemPoolMalloc ctrl.pool = (none, ctrl.pool) ∨
      ∃ block pool, tmrMemPoolMalloc ctrl.pool = (some block, pool) ∧
        pool.numOfBlock = ctrl.pool.numOfBlock ∧ pool.first < pool.numOfBlock ∧
        freeBlocks ctrl.pool = block :: freeBlocks pool := by
  unfold tmrMemPoolMalloc
  split
  · exact Or.inl rfl
  · next enough =>
    obtain ⟨count, isCount⟩ := Nat.exists_eq_succ_of_ne_zero (not_or.mp enough).1
    have positive : 0 < ctrl.pool.numOfBlock := Nat.zero_lt_of_lt sound.start
    refine Or.inr ⟨_, _, rfl, rfl, Nat.mod_lt _ positive, ?_⟩
    unfold freeBlocks
    simp only [isCount, Nat.succ_sub_one]
    rw [Nat.succ_eq_add_one, FreeRing.window_take, Nat.mod_eq_of_lt sound.start]

theorem Sound.dropped (sound : Sound ctrl) (user : Nat) :
    Sound { ctrl with handles := update ctrl.handles user none } := by
  have kept : ∀ other own, update ctrl.handles user none other = some own ->
      ctrl.handles other = some own := by
    intro other own filled
    by_cases same : other = user
    · rw [same, update_self] at filled
      cases filled
    · rw [update_of_ne same] at filled
      exact filled
  refine ⟨sound.start, sound.distinct, sound.range, sound.idle, sound.listed, sound.once,
    sound.inside, ?_, ?_⟩
  · exact fun other block serial filled => sound.mine other block serial (kept other _ filled)
  · exact fun other block serial filled => sound.past other block serial (kept other _ filled)

variable {block : Nat}

section

variable (sound : Sound ctrl)
include sound

theorem Sound.handOut {pool : Pool}
    (malloc : tmrMemPoolMalloc ctrl.pool = (some block, pool)) (user : Nat) :
    let next : TmrCtrl :=
      { ctrl with
        pool := pool
        started := ctrl.started + 1
        handles := update ctrl.handles user (some (block, ctrl.started)) }
    Sound next ∧ Detached next block ∧
      ∀ other own, next.handles other = some (block, own) -> own = ctrl.started ->
        other = user := by
  intro next
  rcases sound.malloc with nothing | ⟨first, rest, isFirst, size, start, blocks⟩
  · rw [malloc] at nothing
    cases nothing
  rw [malloc] at isFirst
  cases isFirst
  have distinct := sound.distinct
  have range := sound.range
  have idle := sound.idle
  rw [blocks] at distinct range idle
  obtain ⟨absent, distinctRest⟩ := List.nodup_cons.mp distinct
  have free := idle block List.mem_cons_self
  have own : next.handles user = some (block, ctrl.started) := update_self _ _ _
  have others : ∀ other, other ≠ user -> next.handles other = ctrl.handles other :=
    fun other differs => update_of_ne differs _ _
  refine ⟨⟨start, distinctRest, ?_, ?_, sound.listed, sound.once, ?_, ?_, ?_⟩,
    ⟨absent, ?_, free⟩, ?_⟩
  · intro other member
    have below := range other (List.mem_cons_of_mem _ member)
    exact size ▸ below
  · exact fun other member => idle other (List.mem_cons_of_mem _ member)
  · intro other pending
    have below := sound.inside other pending
    exact size ▸ below
  · intro other otherBlock serial filled pending
    by_cases same : other = user
    · rw [same, own] at filled
      cases filled
      rw [free] at pending
      cases pending
    · rw [others other same] at filled
      exact sound.mine other otherBlock serial filled pending
  · intro other otherBlock serial filled
    by_cases same : other = user
    · rw [same, own] at filled
      cases filled
      exact Nat.lt_succ_self _
    · rw [others other same] at filled
      exact Nat.lt_succ_of_lt (sound.past other otherBlock serial filled)
  · have below := range block List.mem_cons_self
    exact size ▸ below
  · intro other serial filled latest
    by_contra differs
    rw [others other differs] at filled
    have earlier := sound.past other block serial filled
    omega

theorem Sound.freed (detached : Detached ctrl block) : Sound (tmrMemPoolFree ctrl block) := by
  have room : ctrl.pool.numOfFree < ctrl.pool.numOfBlock :=
    FreeRing.room_of_not_mem sound.distinct sound.range detached.below detached.taken
  have elsewhere : ∀ other, other ≠ block ->
      update ctrl.memory block zeroObj other = ctrl.memory other :=
    fun other differs => update_of_ne differs _ _
  have cleared : (update ctrl.memory block zeroObj block).timerId = none := by
    rw [update_self]
    rfl
  unfold tmrMemPoolFree
  rw [if_neg (Nat.not_le.mpr detached.below)]
  have blocks : freeBlocks
        { ctrl.pool with
          freeList := update ctrl.pool.freeList
            ((ctrl.pool.first + ctrl.pool.numOfFree) % ctrl.pool.numOfBlock) block
          numOfFree := ctrl.pool.numOfFree + 1 } = freeBlocks ctrl.pool ++ [block] :=
    FreeRing.window_put room block
  have pending : ∀ other, (update ctrl.memory block zeroObj other).timerId =
      some other -> other ≠ block := by
    intro other isPending same
    rw [same, cleared] at isPending
    cases isPending
  refine ⟨sound.start, ?_, ?_, ?_, ?_, sound.once, ?_, ?_, sound.past⟩
  · simp only [blocks]
    apply List.Nodup.append sound.distinct (List.nodup_singleton block)
    exact List.disjoint_singleton.mpr detached.taken
  · simp only [blocks]
    intro other member
    rcases List.mem_append.mp member with old | new
    · exact sound.range other old
    · rw [List.mem_singleton.mp new]
      exact detached.below
  · simp only [blocks]
    intro other member
    by_cases same : other = block
    · rw [same]
      exact cleared
    · rw [elsewhere other same]
      refine sound.idle other ((List.mem_append.mp member).resolve_right ?_)
      exact fun new => same (List.mem_singleton.mp new)
  · intro index other
    simp only
    rw [sound.listed]
    by_cases same : other = block
    · rw [same, cleared, detached.idle]
      exact iff_of_false (fun both => nomatch both.1) (fun both => nomatch both.1)
    · rw [elsewhere other same]
  · intro other isPending
    have same := elsewhere other (pending other isPending)
    simp only [same] at isPending
    exact sound.inside other isPending
  · intro user other serial filled isPending
    have same := elsewhere other (pending other isPending)
    simp only [same] at isPending ⊢
    exact sound.mine user other serial filled isPending

variable {index : Int}

theorem Sound.unlinked (member : block ∈ ctrl.tmrList index) :
    Sound (unlink ctrl index block) ∧ Detached (unlink ctrl index block) block := by
  obtain ⟨isPending, isIndex⟩ := (sound.listed index block).mp member
  have cleared : ((unlink ctrl index block).memory block).timerId = none := by
    simp only [unlink, update_self]
  have elsewhere : ∀ other, other ≠ block ->
      (unlink ctrl index block).memory other = ctrl.memory other :=
    fun other differs => update_of_ne differs _ _
  have pending : ∀ other, ((unlink ctrl index block).memory other).timerId = some other ->
      other ≠ block := by
    intro other pends same
    rw [same, cleared] at pends
    cases pends
  have taken : block ∉ freeBlocks ctrl.pool := by
    intro free
    rw [sound.idle block free] at isPending
    cases isPending
  refine ⟨⟨sound.start, sound.distinct, sound.range, ?_, ?_, ?_, ?_, ?_, sound.past⟩,
    ⟨taken, sound.inside block isPending, cleared⟩⟩
  · intro other free
    rw [elsewhere other (fun same => taken (by rw [<- same]; exact free))]
    exact sound.idle other free
  · intro place other
    by_cases same : other = block
    · rw [same, cleared]
      apply iff_of_false
      · intro inList
        by_cases here : place = index
        · rw [here] at inList
          simp only [unlink, update_self] at inList
          exact (sound.once index).not_mem_erase inList
        · simp only [unlink] at inList
          rw [update_of_ne here] at inList
          exact here (((sound.listed place block).mp inList).2.symm.trans isIndex)
      · exact fun both => nomatch both.1
    · rw [elsewhere other same, <- sound.listed]
      by_cases here : place = index
      · rw [here]
        simp only [unlink, update_self]
        exact List.mem_erase_of_ne same
      · simp only [unlink]
        rw [update_of_ne here]
  · intro place
    by_cases here : place = index
    · rw [here]
      simp only [unlink, update_self]
      exact (sound.once index).erase block
    · simp only [unlink]
      rw [update_of_ne here]
      exact sound.once place
  · intro other pends
    rw [elsewhere other (pending other pends)] at pends
    exact sound.inside other pends
  · intro user other serial filled pends
    have same := elsewhere other (pending other pends)
    rw [same] at pends ⊢
    exact sound.mine user other serial filled pends

/-- A block that is handed out is filled in for a user, and the handle of the user is
the only one that can lead to it. -/
theorem Sound.armed {serial user : Nat} (detached : Detached ctrl block)
    (only : ∀ other own, ctrl.handles other = some (block, own) -> own = serial -> other = user)
    (fp : Nat) (period : Int) (param1 : Nat) :
    Sound (arm ctrl user fp period param1 block serial) := by
  have absent : ∀ index, block ∉ ctrl.tmrList index := by
    intro index member
    have pends := ((sound.listed index block).mp member).1
    rw [detached.idle] at pends
    cases pends
  have elsewhere : ∀ other, other ≠ block ->
      (arm ctrl user fp period param1 block serial).memory other = ctrl.memory other :=
    fun other differs => update_of_ne differs _ _
  refine ⟨sound.start, sound.distinct, sound.range, ?_, ?_, ?_, ?_, ?_, sound.past⟩
  · intro other free
    rw [elsewhere other (fun same => detached.taken (by rw [<- same]; exact free))]
    exact sound.idle other free
  · intro place other
    by_cases here : place = (period + ctrl.periodsFromStart).tmod ctrl.numOfPeriods
    · simp only [arm, here, update_self, insertNode_perm.mem_iff, List.mem_cons]
      by_cases same : other = block
      · rw [same]
        simp only [update_self, true_or, and_self]
      · rw [update_of_ne same, <- sound.listed]
        exact or_iff_right same
    · simp only [arm, update_of_ne here]
      by_cases same : other = block
      · rw [same]
        simp only [update_self]
        exact iff_of_false (absent place) (fun both => here both.2.symm)
      · rw [update_of_ne same]
        exact sound.listed place other
  · intro place
    by_cases here : place = (period + ctrl.periodsFromStart).tmod ctrl.numOfPeriods
    · simp only [arm, here, update_self]
      rw [insertNode_perm.nodup_iff]
      exact List.nodup_cons.mpr ⟨absent _, sound.once _⟩
    · simp only [arm, update_of_ne here]
      exact sound.once place
  · intro other pends
    by_cases same : other = block
    · rw [same]
      exact detached.below
    · rw [elsewhere other same] at pends
      exact sound.inside other pends
  · intro holder other own filled pends isSerial
    by_cases same : other = block
    · subst same
      simp only [arm, update_self] at isSerial ⊢
      exact (only holder own filled isSerial.symm).symm
    · rw [elsewhere other same] at pends isSerial ⊢
      exact sound.mine holder other own filled pends isSerial

theorem Sound.absent (detached : Detached ctrl block)
    (index : Int) : block ∉ ctrl.tmrList index := by
  intro member
  have pends := ((sound.listed index block).mp member).1
  rw [detached.idle] at pends
  cases pends

theorem othersTimers_unlink {user : Nat}
    (member : block ∈ ctrl.tmrList index) (own : (ctrl.memory block).owner = user) (place : Int) :
    othersTimers (unlink ctrl index block) user place = othersTimers ctrl user place := by
  have absent := (sound.unlinked member).1.absent (sound.unlinked member).2 place
  apply (othersIn_update { ctrl.memory block with timerId := none } absent).trans
  by_cases here : place = index
  · simp only [unlink, othersTimers, here, update_self]
    exact othersIn_erase own
  · simp only [unlink, othersTimers, update_of_ne here]

theorem othersTimers_arm (detached : Detached ctrl block)
    (user serial fp : Nat) (period : Int) (param1 : Nat) (place : Int) :
    othersTimers (arm ctrl user fp period param1 block serial) user place =
      othersTimers ctrl user place := by
  have absent := sound.absent detached place
  by_cases here : place = (period + ctrl.periodsFromStart).tmod ctrl.numOfPeriods
  · simp only [arm, othersTimers, here, update_self] at absent ⊢
    exact othersIn_insert absent rfl
  · simp only [arm, othersTimers, update_of_ne here]
    exact othersIn_update _ absent

theorem othersTimers_free (detached : Detached ctrl block) (user : Nat) (place : Int) :
    othersTimers (tmrMemPoolFree ctrl block) user place = othersTimers ctrl user place := by
  unfold tmrMemPoolFree
  rw [if_neg (Nat.not_le.mpr detached.below)]
  exact othersIn_update _ (sound.absent detached place)

theorem Sound.startNew (user fp : Nat) (period : Int) (param1 : Nat) :
    Sound (startNew ctrl user fp period param1) ∧
      ∀ place, othersTimers (Timer.startNew ctrl user fp period param1) user place =
        othersTimers ctrl user place := by
  unfold Timer.startNew
  cases malloc : tmrMemPoolMalloc ctrl.pool with
  | mk handed pool =>
    cases handed with
    | none =>
      have same : pool = ctrl.pool := by
        rcases sound.malloc with nothing | ⟨block, rest, isSome, -⟩
        · rw [malloc] at nothing
          exact congrArg Prod.snd nothing
        · rw [malloc] at isSome
          cases isSome
      rw [same]
      exact ⟨sound.dropped user, fun place => rfl⟩
    | some block =>
      obtain ⟨next, detached, only⟩ := sound.handOut malloc user
      refine ⟨next.armed detached only fp period param1, ?_⟩
      intro place
      exact othersTimers_arm next detached user ctrl.started fp period param1 place

theorem Sound.ownTimer {user serial : Nat}
    (current : HandleCurrent ctrl user) (filled : ctrl.handles user = some (block, serial))
    (pending : (ctrl.memory block).timerId = some block) :
    (ctrl.memory block).owner = user ∧ (ctrl.memory block).serial = serial := by
  have isSerial := current block serial filled pending
  exact ⟨sound.mine user block serial filled pending isSerial, isSerial⟩

theorem Sound.stopA {user : Nat} (current : HandleCurrent ctrl user) :
    Sound (taosTmrStopA ctrl user) ∧ ∀ place, othersTimers (taosTmrStopA ctrl user) user place =
        othersTimers ctrl user place := by
  unfold taosTmrStopA
  cases filled : ctrl.handles user with
  | none => exact ⟨sound, fun place => rfl⟩
  | some handle =>
    obtain ⟨block, serial⟩ := handle
    simp only
    by_cases blank : (ctrl.memory block).pCtrl = false
    · rw [if_pos blank]
      exact ⟨sound, fun place => rfl⟩
    rw [if_neg blank]
    by_cases pending : (ctrl.memory block).timerId = some block
    · rw [if_pos pending]
      have own := (sound.ownTimer current filled pending).1
      have member := (sound.listed _ block).mpr ⟨pending, rfl⟩
      obtain ⟨unlinked, detached⟩ := sound.unlinked member
      have freed := unlinked.freed detached
      have sameHandles : (tmrMemPoolFree (unlink ctrl (ctrl.memory block).index block)
          block).handles = ctrl.handles := by
        unfold tmrMemPoolFree
        split <;> rfl
      refine ⟨?_, ?_⟩
      · have dropped := freed.dropped user
        rw [sameHandles] at dropped
        exact dropped
      · intro place
        have outside := othersTimers_free unlinked detached user place
        exact outside.trans (othersTimers_unlink sound member own place)
    · rw [if_neg pending]
      exact ⟨sound, fun place => rfl⟩

theorem Sound.reset {user : Nat} (current : HandleCurrent ctrl user)
    (fp : Nat) (mseconds : Int) (param1 : Nat) : Sound (taosTmrReset ctrl user fp mseconds param1) ∧
      ∀ place, othersTimers (taosTmrReset ctrl user fp mseconds param1) user place =
        othersTimers ctrl user place := by
  unfold taosTmrReset
  cases filled : ctrl.handles user with
  | none => exact sound.startNew user fp _ param1
  | some handle =>
    obtain ⟨block, serial⟩ := handle
    simp only
    by_cases pending : (ctrl.memory block).timerId = some block
    · rw [if_pos pending]
      obtain ⟨own, isSerial⟩ := sound.ownTimer current filled pending
      have member := (sound.listed _ block).mpr ⟨pending, rfl⟩
      obtain ⟨unlinked, detached⟩ := sound.unlinked member
      have only : ∀ other later, (unlink ctrl (ctrl.memory block).index block).handles other =
          some (block, later) -> later = serial -> other = user := by
        intro other later holds same
        have holder := sound.mine other block later holds pending (isSerial.trans same.symm)
        exact holder.symm.trans own
      refine ⟨unlinked.armed detached only fp _ param1, ?_⟩
      intro place
      have armed := othersTimers_arm unlinked detached user serial fp
        (mseconds.tdiv ctrl.resolution) param1 place
      exact armed.trans (othersTimers_unlink sound member own place)
    · rw [if_neg pending]
      exact sound.startNew user fp _ param1

theorem Sound.alike {other : TmrCtrl} (pool : other.pool = ctrl.pool)
    (tmrList : other.tmrList = ctrl.tmrList) (handles : other.handles = ctrl.handles)
    (started : other.started = ctrl.started)
    (memory : ∀ block, (other.memory block).timerId = (ctrl.memory block).timerId ∧
      (other.memory block).index = (ctrl.memory block).index ∧
      (other.memory block).owner = (ctrl.memory block).owner ∧
      (other.memory block).serial = (ctrl.memory block).serial) : Sound other := by
  refine ⟨?_, ?_, ?_, ?_, ?_, ?_, ?_, ?_, ?_⟩
  · rw [pool]
    exact sound.start
  · rw [pool]
    exact sound.distinct
  · rw [pool]
    exact sound.range
  · intro block
    rw [pool, (memory block).1]
    exact sound.idle block
  · intro index block
    rw [tmrList, (memory block).1, (memory block).2.1]
    exact sound.listed index block
  · rw [tmrList]
    exact sound.once
  · intro block
    rw [pool, (memory block).1]
    exact sound.inside block
  · intro user block serial
    rw [handles, (memory block).1, (memory block).2.2.1, (memory block).2.2.2]
    exact sound.mine user block serial
  · rw [handles, started]
    exact sound.past

theorem Sound.expired {header : Nat} {rest : List Nat}
    (isList : ctrl.tmrList index = header :: rest) :
    Sound (expire ctrl index header) ∧ (expire ctrl index header).tmrList index = rest := by
  have member : header ∈ ctrl.tmrList index := by
    rw [isList]
    exact List.mem_cons_self
  obtain ⟨unlinked, detached⟩ := sound.unlinked member
  have scheduled : Sound
      { unlink ctrl index header with
        scheduled := ctrl.scheduled ++
          [{ tfp := (ctrl.memory header).fp
             ahandle := (ctrl.memory header).param1
             thandle := header }] } :=
    unlinked.alike rfl rfl rfl rfl fun _ => ⟨rfl, rfl, rfl, rfl⟩
  refine ⟨scheduled.freed ⟨detached.taken, detached.below, detached.idle⟩, ?_⟩
  have remaining : (unlink ctrl index header).tmrList index = rest := by
    simp only [unlink, update_self]
    rw [isList, List.erase_cons_head]
  unfold expire tmrMemPoolFree
  split <;> exact remaining

theorem Sound.countDown (pList : List Nat) : Sound (countDown ctrl pList) := by
  refine sound.alike rfl rfl rfl rfl ?_
  intro block
  unfold Timer.countDown
  by_cases member : block ∈ pList
  · simp only [if_pos member, and_self]
  · simp only [if_neg member, and_self]

end

theorem Sound.expireList {index : Int} {pList : List Nat} :
    ∀ {ctrl : TmrCtrl}, Sound ctrl -> ctrl.tmrList index = pList ->
      Sound (expireList index pList ctrl) := by
  induction pList with
  | nil => exact fun sound _ => sound
  | cons header rest ih =>
    intro ctrl sound isList
    unfold Timer.expireList
    by_cases waits : 0 < (ctrl.memory header).cycle
    · rw [if_pos waits]
      exact sound.countDown _
    · rw [if_neg waits]
      obtain ⟨expired, remaining⟩ := sound.expired isList
      exact ih expired remaining

theorem Sound.processList (sound : Sound ctrl) : Sound (taosTmrProcessList ctrl) := by
  have drained : Sound (Timer.expireList (ctrl.periodsFromStart.tmod ctrl.numOfPeriods)
      (ctrl.tmrList (ctrl.periodsFromStart.tmod ctrl.numOfPeriods)) ctrl) :=
    sound.expireList rfl
  exact drained.alike rfl rfl rfl rfl fun _ => ⟨rfl, rfl, rfl, rfl⟩

theorem taosTmrInit_sound (maxNumOfTmrs : Nat) (resolution longest : Int) :
    Sound (taosTmrInit maxNumOfTmrs resolution longest) := by
  have blocks : freeBlocks (tmrMemPoolInit (maxNumOfTmrs + 10)) =
      List.range (maxNumOfTmrs + 10) := by
    have window : FreeRing.window (maxNumOfTmrs + 10) 0 (maxNumOfTmrs + 10) (fun place => place) =
        (List.range (maxNumOfTmrs + 10)).map fun place => place :=
      FreeRing.window_zero (Nat.le_refl _)
    exact window.trans (List.map_id _)
  refine ⟨?_, ?_, ?_, fun _ _ => rfl, ?_, fun _ => List.nodup_nil, ?_, ?_, ?_⟩
  · exact Nat.zero_lt_succ _
  · exact blocks ▸ List.nodup_range
  · intro block member
    rw [taosTmrInit, blocks] at member
    exact List.mem_range.mp member
  · intro index block
    exact iff_of_false List.not_mem_nil (fun both => nomatch both.1)
  · exact fun _ pending => nomatch pending
  all_goals exact fun _ _ _ filled => nomatch filled

theorem Sound.step (sound : Sound ctrl) {event : TmrEvent} (held : Held ctrl event) :
    Sound (timerStep ctrl event) ∧ Isolated ctrl event := by
  cases event with
  | start user fp mseconds param1 => exact ⟨(sound.startNew user fp _ param1).1, trivial⟩
  | processList => exact ⟨sound.processList, trivial⟩
  | stopA user => exact sound.stopA held
  | reset user fp mseconds param1 => exact sound.reset held fp mseconds param1

theorem Sound.run {events : List TmrEvent} :
    ∀ {ctrl : TmrCtrl}, Sound ctrl -> HeldRun ctrl events -> IsolatedRun ctrl events := by
  induction events with
  | nil => exact fun _ _ => trivial
  | cons event rest ih =>
    intro ctrl sound held
    obtain ⟨next, isolated⟩ := sound.step held.1
    exact ⟨isolated, ih next held.2⟩

/-- As long as no handle leads to a block that has been handed out again, stops and
resets leave the timers of all others alone. -/
theorem heldRun_isolated (maxNumOfTmrs : Nat) (resolution longest : Int) (events : List TmrEvent)
    (held : HeldRun (taosTmrInit maxNumOfTmrs resolution longest) events) :
    IsolatedRun (taosTmrInit maxNumOfTmrs resolution longest) events :=
  (taosTmrInit_sound maxNumOfTmrs resolution longest).run held

/-- The timer of user 7 expires, ten more are started, and the next one has its block. -/
def reusedBlock : List TmrEvent :=
  [.start 7 1 0 1, .processList] ++ (List.range 10).map (fun user => .start (20 + user) 2 40 2) ++
    [.start 8 3 40 3]

/-- Two users whose handles are current. -/
theorem twoUsers_isolated : IsolatedRun (taosTmrInit 1 5 50)
      [.start 7 1 0 1, .start 8 3 40 3, .processList, .stopA 7, .reset 8 3 20 3, .stopA 8] :=
  heldRun_isolated 1 5 50 _ (by decide +kernel)

/-- The stop of user 7, whose timer has expired, removes the timer of user 8. -/
theorem reusedBlock_not_isolated :
    ¬ IsolatedRun (taosTmrInit 1 5 50) (reusedBlock ++ [.stopA 7]) := by
  intro isolated
  obtain ⟨-, -, -, -, -, -, -, -, -, -, -, -, -, stopped, -⟩ := isolated
  have index := stopped 9
  revert index
  decide +kernel

end Luomi.Timer
