import Luomi.Util.DataCacheRuns

/-!
# How long data stays in the cache

Data that is put under a key for some time is found there until then, unless its node
was there before and nobody used it: `realloc` keeps the time and the size of that node.
-/

namespace Luomi.DataCache

open Function (update update_of_ne update_self)
open Option (bind_eq_bind bind_some)

/-- What ends the life of data: the second part of a release with `remove`, other data for
the key, a clearing of its list, or a refresh when its time has come. -/
def Ends (hash : Nat) (key : List UInt8) (pNode : Nat) (due : Int) : CacheEvent -> Prop
  | .add _ other .. | .update _ other .. => other = key
  | .moveToTrash other => other = pNode
  | .refreshList _ time => due ≤ time.toNat
  | .clearList other => other = hash
  | .get .. | .release .. | .clearTrash => False

/-- The node is found under its key whatever comes that does not end its life. -/
def Lasts (shared : Shared) (key : List UInt8) (pNode : Nat) (due : Int) : Prop :=
  ∀ events later, cacheRun shared events = some later ->
    (∀ event ∈ events, ¬ Ends (taosHashKey shared.obj.maxSessions key) key pNode due event) ->
      taosGetNodeFromHashTable later.obj key = some (some pNode)

/-- A node nobody uses already has the time and the size; another one has them where they
fit into its fields. -/
def Renewed (obj : SCacheObj) (key : List UInt8) (due : Int) (size : Nat) : Prop :=
  match unusedNode obj key with
  | some node => due ≤ node.time.toNat ∧ node.nodeSize.toNat = size
  | none => due < 18446744073709551616 ∧ size < 4294967296

variable {obj next : SCacheObj} {shared after : Shared} {pNode : Nat} {node : SDataNode}

/-- The nodes that are to be kept are, but for the number of their users. -/
def Keeps (obj next : SCacheObj) (kept : Nat -> SDataNode -> Prop) : Prop :=
  Good next ∧ ∀ pNode node, obj.memory pNode = some node -> kept pNode node ->
    ∃ refCount, next.memory pNode = some { node with refCount := refCount }

theorem Good.keeps_self (good : Good obj) (kept : Nat -> SDataNode -> Prop) : Keeps obj obj kept :=
  ⟨good, fun _ node isNode _ => ⟨node.refCount, isNode⟩⟩

theorem Good.keeps_counted (good : Good obj) (isNode : obj.memory pNode = some node)
    (refCount : UInt32) (kept : Nat -> SDataNode -> Prop) :
    Keeps obj (setNode obj pNode { node with refCount := refCount }) kept := by
  refine ⟨good.counted isNode refCount, fun x old isOld _ => ?_⟩
  by_cases same : x = pNode
  · subst same
    cases isNode.symm.trans isOld
    exact ⟨refCount, update_self _ _ _⟩
  · exact ⟨old.refCount, (update_of_ne same _ _).trans isOld⟩

theorem Good.keeps_removed (good : Good obj) {done : Bool}
    (isRemoved : taosRemoveDataFromCache obj pNode = some (done, next))
    (kept : Nat -> SDataNode -> Prop) : Keeps obj next kept := by
  unfold taosRemoveDataFromCache at isRemoved
  split at isRemoved
  · cases isRemoved
    exact good.keeps_self kept
  · obtain ⟨node, isNode, isNext⟩ := Option.bind_eq_some_iff.mp isRemoved
    split at isNext
    · cases isNext
      exact good.keeps_self kept
    · split at isNext
      · cases isNext
        exact good.keeps_counted isNode _ kept
      · cases isNext
        exact good.keeps_self kept

theorem Good.keeps_put (good : Good obj) {entry : Entry} {result : Option Nat}
    (isPut : putEntry obj entry = some (result, next)) {kept : Nat -> SDataNode -> Prop}
    (others : ∀ pNode node, kept pNode node -> node.key ≠ entry.key) : Keeps obj next kept := by
  obtain ⟨_, _, isNext, goodNext, apart, -⟩ := good.put entry
  cases isPut.symm.trans isNext
  exact ⟨goodNext, fun pNode node isNode isKept =>
    ⟨node.refCount, apart pNode node isNode (others pNode node isKept)⟩⟩

def Remains (event : CacheEvent) (pNode : Nat) (node : SDataNode) : Prop :=
  node.hashVal ≠ hashValueInTrash ∧
    ¬ Ends node.hashVal.toNat node.key pNode node.time.toNat event

theorem Good.step (good : Good shared.obj) {event : CacheEvent}
    (isNext : cacheStep shared event = some after) :
    Keeps shared.obj after.obj (Remains event) := by
  cases event with
  | get user key =>
    simp only [cacheStep] at isNext
    rcases good.gotten key with missing | ⟨other, old, isOld, -, -, found⟩
    · rw [missing] at isNext
      cases isNext
      exact good.keeps_self _
    · rw [found] at isNext
      cases isNext
      exact good.keeps_counted isOld _ _
  | add user key dataSize keepTime now alloc =>
    obtain ⟨⟨result, next⟩, isPut, isAfter⟩ := Option.bind_eq_some_iff.mp isNext
    cases isAfter
    exact good.keeps_put isPut fun _ _ remains => Ne.symm remains.2
  | update user key size duration now alloc =>
    obtain ⟨⟨result, next⟩, isPut, isAfter⟩ := Option.bind_eq_some_iff.mp isNext
    cases isAfter
    exact good.keeps_put isPut fun _ _ remains => Ne.symm remains.2
  | release user other remove =>
    simp only [cacheStep] at isNext
    split at isNext
    · obtain ⟨⟨done, next⟩, isRemoved, isAfter⟩ := Option.bind_eq_some_iff.mp isNext
      cases done <;> cases isAfter <;> exact good.keeps_removed isRemoved _
    · cases isNext
      exact good.keeps_self _
  | moveToTrash other =>
    simp only [cacheStep] at isNext
    split at isNext
    · obtain ⟨next, isMoved, isAfter⟩ := Option.bind_eq_some_iff.mp isNext
      cases isAfter
      cases isOther : shared.obj.memory other with
      | none =>
        unfold taosCacheMoveNodeToTrash taosRemoveNodeInHashTable at isMoved
        rw [isOther] at isMoved
        cases isMoved
      | some old =>
        obtain ⟨_, isTrashed, goodNext, memory, -⟩ := good.movedToTrash isOther
        cases isMoved.symm.trans isTrashed
        refine ⟨goodNext, fun pNode node isNode remains => ⟨node.refCount, ?_⟩⟩
        rw [memory, update_of_ne (Ne.symm remains.2), isNode]
    · cases isNext
      exact good.keeps_self _
  | refreshList hash time =>
    obtain ⟨next, isRefreshed, goodNext, swept⟩ := good.refreshed time hash
    obtain ⟨_, isSame, isAfter⟩ := Option.bind_eq_some_iff.mp isNext
    cases isAfter
    cases isSame.symm.trans isRefreshed
    refine ⟨goodNext, fun pNode node isNode remains => ⟨node.refCount, ?_⟩⟩
    rw [swept pNode, if_neg, isNode]
    intro goes
    obtain ⟨-, old, isOld, -, isDue⟩ := mem_unreferenced.mp goes
    cases isNode.symm.trans isOld
    exact remains.2 (Int.ofNat_le.mpr (UInt64.le_iff_toNat_le.mp (of_decide_eq_true isDue)))
  | clearList hash =>
    obtain ⟨next, isCleared, goodNext, -, others⟩ := good.listTrashed fun pNode member =>
      (good.listed hash pNode member).imp fun _ both => both.1
    obtain ⟨_, isSame, isAfter⟩ := Option.bind_eq_some_iff.mp isNext
    cases isAfter
    cases isSame.symm.trans isCleared
    refine ⟨goodNext, fun pNode node isNode remains => ⟨node.refCount, ?_⟩⟩
    rw [others pNode, isNode]
    intro member
    obtain ⟨old, isOld, isHash⟩ := (good.placed hash pNode).mp member
    cases isNode.symm.trans isOld
    exact remains.2 (congrArg Int.toNat isHash).symm
  | clearTrash =>
    obtain ⟨next, isCleared, goodNext, swept⟩ := good.trashCleared
    obtain ⟨_, isSame, isAfter⟩ := Option.bind_eq_some_iff.mp isNext
    cases isAfter
    cases isSame.symm.trans isCleared
    refine ⟨goodNext, fun pNode node isNode remains => ⟨node.refCount, ?_⟩⟩
    rw [swept pNode, if_neg, isNode]
    intro goes
    obtain ⟨old, isOld, isTrash⟩ := (good.trashed pNode).mp (mem_unreferenced.mp goes).1
    cases isNode.symm.trans isOld
    exact remains.1 isTrash

theorem Good.run {events : List CacheEvent} : ∀ {shared : Shared}, Good shared.obj ->
    cacheRun shared events = some after ->
      Keeps shared.obj after.obj fun pNode node => ∀ event ∈ events, Remains event pNode node := by
  induction events with
  | nil =>
    rintro shared good ⟨⟩
    exact good.keeps_self _
  | cons event rest ih =>
    intro shared good isRun
    obtain ⟨next, isNext, isRest⟩ := Option.bind_eq_some_iff.mp isRun
    obtain ⟨goodNext, kept⟩ := good.step isNext
    obtain ⟨goodAfter, keptRest⟩ := ih goodNext isRest
    refine ⟨goodAfter, fun pNode node isNode remains => ?_⟩
    obtain ⟨refCount, isKept⟩ := kept pNode node isNode (remains event List.mem_cons_self)
    exact keptRest pNode { node with refCount := refCount } isKept fun later member =>
      remains later (List.mem_cons_of_mem event member)

theorem Good.found (good : Good obj) (isNode : obj.memory pNode = some node)
    (outside : node.hashVal ≠ hashValueInTrash) :
    taosGetNodeFromHashTable obj node.key = some (some pNode) := by
  rcases good.lookedUp node.key with ⟨-, unknown⟩ | ⟨other, old, found, isOld, isKey, -, isHash⟩
  · exact absurd rfl (unknown pNode node isNode outside)
  · have outsideOld : old.hashVal ≠ hashValueInTrash := by
      rw [isHash]
      exact natCast_ne_inTrash _
    rw [found, good.keys other old isOld outsideOld pNode node isNode outside isKey]

section

variable (good : Good shared.obj) (isNode : shared.obj.memory pNode = some node)
  (outside : node.hashVal ≠ hashValueInTrash) {due : Int}

include good isNode outside

theorem Good.lasts (inTime : due ≤ node.time.toNat) : Lasts shared node.key pNode due := by
  intro events later isLater lives
  obtain ⟨goodLater, kept⟩ := good.run isLater
  obtain ⟨refCount, isKept⟩ := kept pNode node isNode fun event member => by
    refine ⟨outside, fun ends => lives event member ?_⟩
    rw [good.hashed pNode node isNode outside, Int.toNat_natCast] at ends
    cases event with
    | refreshList _ time => exact inTime.trans ends
    | _ => exact ends
  exact @Good.found _ _ { node with refCount := refCount } goodLater isKept outside

theorem Good.not_lasts (once : node.refCount = 1) {user : Nat} (holds : (user, pNode) ∈ shared.refs)
    (early : node.time.toNat < due) : ¬ Lasts shared node.key pNode due := by
  intro lasts
  let unused : SDataNode := { node with refCount := node.refCount - 1 }
  let released := setNode shared.obj pNode unused
  have isUnused : released.memory pNode = some unused := update_self _ _ _
  have goodReleased : Good released := good.counted isNode _
  obtain ⟨hash, -, isHash, -, -, member⟩ := goodReleased.place isUnused outside
  obtain ⟨next, isNext, goodNext, swept⟩ := goodReleased.refreshed node.time hash
  have found := lasts [.release user pNode false, .refreshList hash node.time]
    { obj := next, refs := shared.refs.erase (user, pNode), removing := shared.removing } ?_ ?_
  · rcases goodNext.lookedUp node.key with ⟨missing, -⟩ | ⟨other, old, isFound, isOld, -⟩
    · rw [missing] at found
      cases found
    · cases found.symm.trans isFound
      rw [swept pNode, if_pos] at isOld
      · cases isOld
      · refine mem_unreferenced.mpr ⟨member, unused, isUnused, ?_, decide_eq_true (UInt64.le_refl _)⟩
        simp only [unused, once]
        rfl
  · have isReleased := good.unreferencedOnce isNode (by rw [once]; decide)
    simp only [cacheRun, cacheStep, if_pos holds, isReleased, bind_eq_bind, bind_some, if_true]
    exact Option.bind_eq_some_iff.mpr ⟨_, Option.bind_eq_some_iff.mpr ⟨next, isNext, rfl⟩, rfl⟩
  · simp only [List.forall_mem_cons, Ends, not_le.mpr early, not_false_iff, true_and]
    exact fun _ member => absurd member List.not_mem_nil

end

theorem wrapped_le_iff (start : Nat) (change : Int) :
    start + change ≤ (((start + (change % 18446744073709551616).toNat) % 2 ^ 64 : Nat) : Int) ↔
      start + change < 18446744073709551616 := by
  omega

theorem expiry_iff (now : UInt64) (keepTime : Int) :
    now.toNat + 1000 * keepTime ≤ ((now + UInt64.ofInt (keepTime * 1000)).toNat : Int) ↔
      now.toNat + 1000 * keepTime < 18446744073709551616 := by
  have lifespan : (UInt64.ofInt (keepTime * 1000)).toNat =
      (keepTime * 1000 % 18446744073709551616).toNat :=
    Nat.mod_eq_of_lt (by omega)
  rw [Int.mul_comm 1000 keepTime, UInt64.toNat_add, lifespan]
  exact wrapped_le_iff now.toNat (keepTime * 1000)

/-- Data that is put lasts for its time, in a node that knows its size, exactly if it is
not put into a node that is there and that nobody uses, or that node fits already. -/
theorem putData_lasts_iff {maxSessions : Nat} {history : List CacheEvent}
    (isRun : cacheRun (fresh maxSessions) history = some shared) {key : List UInt8}
    {dataSize : Nat} {keepTime : Int} {now : UInt64} {alloc : Alloc}
    (isPut :
      taosAddDataIntoCache shared.obj key dataSize keepTime now alloc = some (some pNode, next) ∨
      taosUpdateDataFromCache shared.obj key dataSize keepTime now alloc = some (some pNode, next))
    (user : Nat) :
    (Lasts (given shared user (some pNode, next)) key pNode (now.toNat + 1000 * keepTime) ∧
        ∃ node, next.memory pNode = some node ∧ node.nodeSize.toNat = newSize key dataSize) ↔
      Renewed shared.obj key (now.toNat + 1000 * keepTime) (newSize key dataSize) := by
  obtain ⟨good, -⟩ := (fresh_counted maxSessions).good.run isRun
  obtain ⟨_, _, isNext, goodNext, -, handed⟩ := good.put
    ⟨key, dataSize, UInt64.ofInt (keepTime * 1000), now, alloc⟩
  cases (isPut.elim id id : putEntry _ _ = _).symm.trans isNext
  obtain ⟨⟨nobody, own, -⟩, node, isNode, isKey, outside, fields⟩ := handed
  have once : node.refCount = 1 := by
    rw [nobody, refOf_eq isNode] at own
    exact Option.some_inj.mp own
  have lasts_iff : Lasts (given shared user (some pNode, next)) key pNode
      (now.toNat + 1000 * keepTime) ↔ now.toNat + 1000 * keepTime ≤ (node.time.toNat : Int) := by
    have after : Good (given shared user (some pNode, next)).obj := goodNext
    subst isKey
    refine ⟨fun lasts => ?_, after.lasts isNode outside⟩
    by_contra early
    exact after.not_lasts isNode outside once List.mem_cons_self (not_le.mp early) lasts
  rw [lasts_iff, isNode]
  simp only [Option.some.injEq, exists_eq_left']
  unfold Renewed
  cases isUnused : unusedNode shared.obj key with
  | some old =>
    rw [isUnused] at fields
    rw [fields.1, fields.2]
  | none =>
    rw [isUnused] at fields
    rw [fields.1, fields.2, expiry_iff, UInt32.toNat_ofNat']
    exact and_congr_right fun _ => by dsimp only; omega

/-- The first data of a cache. -/
theorem firstData_lasts : ∃ next,
    taosAddDataIntoCache (fresh 1).obj [97] 4 1 100 .moves = some (some 0, next) ∧
      Lasts (given (fresh 1) 1 (some 0, next)) [97] 0 1100 ∧
        ∃ node, next.memory 0 = some node ∧ node.nodeSize.toNat = newSize [97] 4 := by
  refine ⟨_, rfl, (@putData_lasts_iff _ (fresh 1) 0 1 [] rfl [97] 4 1 100 .moves (.inl rfl) 1).mpr ?_⟩
  exact ⟨by decide, by decide⟩

/-- Data is put for a minute into the node of data for a second. -/
theorem secondData_not_lasts : ∃ shared next,
    cacheRun (fresh 1) [.add 1 [97] 4 1 100 .moves, .release 1 0 false] = some shared ∧
      taosUpdateDataFromCache shared.obj [97] 8 60 200 .stays = some (some 0, next) ∧
      ¬ Lasts (given shared 2 (some 0, next)) [97] 0 60200 ∧
      ∀ node ∈ next.memory 0, node.nodeSize.toNat ≠ newSize [97] 8 := by
  refine ⟨_, _, rfl, rfl, ?_, ?_⟩
  · intro lasts
    have found := lasts [.release 2 0 false, .refreshList (taosHashKey 4 [97]) 1100] _ rfl
      (by simp [Ends])
    revert found
    decide
  · decide

end Luomi.DataCache
