import Luomi.Client.ConnCacheLists

/-!
# Runs of the connection cache

Every connection that was added is in the cache, handed out or cleaned.  An operation
finds the lists linked and leaves them so as long as the pool has a free node and the
sum of the characters is not negative.  The user of a connection is not compared: a
request gets the newest connection of its address and port in the list, whoever it
was added for.
-/

namespace Luomi.Client.ConnCacheRuns

open LinkedPath LinkedQueue Buckets ConnCache ConnCacheLists
open List (append_assoc append_nil map_append map_map mem_cons_self mem_map nodup_append)
open Function (update update_eq_self update_idem update_self)
open Option (bind_some map_some not_isSome)

section Runs

variable {δ : Type}

structure Conn (δ : Type) where
  ip : UInt32
  port : UInt16
  user : User
  data : Option δ
  time : Nat

structure Request where
  ip : UInt32
  port : UInt16
  user : User
  time : Nat

inductive Event (δ : Type) where
  | add (data : Option δ) (ip : UInt32) (port : UInt16) (user : User)
  | get (ip : UInt32) (port : UInt16) (user : User)
  | clean (tmrId nextTimer : Nat)

/-- A cache with what has become of the connections; `owner` is the user a node was
filled in for. -/
structure World (δ : Type) where
  handle : Option (SConnCache δ)
  owner : Nat -> User
  added : List (Conn δ)
  handed : List (Conn δ × Request)
  cleaned : List (Conn δ)

def conn (owner : Nat -> User) (held : Held δ) : Conn δ :=
  { ip := held.2.ip
    port := held.2.port
    user := owner held.1
    data := held.2.data
    time := held.2.time }

def step (world : World δ) (time : Nat) (event : Event δ) : Option (World δ) :=
  match world.handle, event with
  | none, _ => some world
  | some cache, .add data ip port user =>
    (taosAddConnIntoCache cache data ip port user time).map fun added =>
      match added.2.1 with
      | none => { world with handle := some added.1 }
      | some slot =>
        let owner := update world.owner slot user
        { world with
          handle := some added.1
          owner := owner
          added := { ip, port, user, data, time } :: world.added
          cleaned := added.2.2.map (conn owner) ++ world.cleaned }
  | some cache, .get ip port user =>
    (taosGetConnFromCache cache ip port user time).map fun got =>
      { world with
        handle := some got.1
        handed := got.2.1.toList.map (fun held =>
          (conn world.owner held, { ip, port, user, time })) ++ world.handed
        cleaned := got.2.2.map (conn world.owner) ++ world.cleaned }
  | some cache, .clean tmrId nextTimer =>
    (taosCleanConnCache cache tmrId nextTimer time).map fun cleaned =>
      { world with
        handle := some cleaned.1
        cleaned := cleaned.2.map (conn world.owner) ++ world.cleaned }

def run : World δ -> List (Nat × Event δ) -> Option (World δ)
  | world, [] => some world
  | world, (time, event) :: later => (step world time event).bind fun next => run next later

/-- A cache as `taosOpenConnCache` returns it. -/
def opened (maxSessions keepTimer pTimer : Nat) : World δ :=
  { handle := taosOpenConnCache maxSessions keepTimer pTimer
    owner := fun _ => []
    added := []
    handed := []
    cleaned := [] }

structure Consistent (cache : SConnCache δ) : Prop where
  links : ∀ hash < cache.maxSessions,
    Path (nextOf cache hash) (backOf cache) .head (slots cache hash)
  apart : (elements cache.maxSessions (slots cache)).Nodup
  count : ∀ hash < cache.maxSessions, cache.count hash = (slots cache hash).length
  total : cache.total = ((List.range cache.maxSessions).map cache.count).sum
  newest : ∀ hash < cache.maxSessions, (slots cache hash).Pairwise fun early late =>
    (cache.nodes late).time ≤ (cache.nodes early).time

def contents (owner : Nat -> User) (cache : SConnCache δ) (lists : Nat -> List Nat) :
    List (Conn δ) :=
  (elements cache.maxSessions lists).map fun slot => conn owner (slot, cache.nodes slot)

def cached (world : World δ) : List (Conn δ) :=
  match world.handle with
  | none => []
  | some cache => contents world.owner cache (slots cache)

def Right (keepTimer : Nat) (given : Conn δ × Request) : Prop :=
  given.2.time < keepTimer + given.1.time ∧ given.1.ip = given.2.ip ∧
    given.1.port = given.2.port ∧ given.1.user = given.2.user

structure Sound (keepTimer : Nat) (world : World δ) : Prop where
  lists : ∀ cache, world.handle = some cache -> Consistent cache
  once : world.added.Perm (cached world ++ (world.handed.map Prod.fst ++ world.cleaned))
  right : ∀ given ∈ world.handed, Right keepTimer given

def newestOf (cache : SConnCache δ) (ip : UInt32) (port : UInt16) (nodes : List Nat) : Option Nat :=
  nodes.find? fun slot => (cache.nodes slot).ip = ip ∧ (cache.nodes slot).port = port

/-- The pool has a node for a new connection, no sum of characters is negative, and
the newest connection of an address and a port has expired or was added for the user
who asks. -/
def Fits (world : World δ) (time : Nat) : Event δ -> Prop
  | .add data ip port user => data.isSome -> ∀ cache, world.handle = some cache ->
      cache.total < cache.maxSessions ∧ 0 ≤ taosHashConn cache.maxSessions ip port user
  | .get ip port user => ∀ cache, world.handle = some cache ->
      0 ≤ taosHashConn cache.maxSessions ip port user ∧
        ∀ slot, newestOf cache ip port
            (slots cache (taosHashConn cache.maxSessions ip port user).toNat) = some slot ->
          expiry cache slot ≤ time ∨ world.owner slot = user
  | .clean _ _ => True

def FitsRun : World δ -> List (Nat × Event δ) -> Prop
  | _, [] => True
  | world, (time, event) :: later =>
    Fits world time event ∧ ∀ next, step world time event = some next -> FitsRun next later

variable {cache after other : SConnCache δ} {lists later : Nat -> List Nat}
variable {hash slot time : Nat} {owner fresh : Nat -> User}

theorem conn_of_label {cacheNode afterNode : SConnHash δ}
    (same : (afterNode.ip, afterNode.port, afterNode.data, afterNode.time) =
      (cacheNode.ip, cacheNode.port, cacheNode.data, cacheNode.time))
    (sameOwner : fresh slot = owner slot) :
    conn fresh (slot, afterNode) = conn owner (slot, cacheNode) := by
  simp only [Prod.mk.injEq] at same
  obtain ⟨ip, port, data, time⟩ := same
  simp only [conn, ip, port, data, time, sameOwner]

theorem contents_change (linked : Linked cache lists) (inside : hash < cache.maxSessions)
    (sessions : after.maxSessions = cache.maxSessions) {left gone : List Nat}
    (parts : (lists hash).Perm (left ++ gone))
    (labels : ∀ slot, slot ∉ gone -> label after slot = label cache slot)
    (owners : ∀ slot, slot ∉ gone -> fresh slot = owner slot) :
    (contents owner cache lists).Perm
      (contents fresh after (update lists hash left) ++
        gone.map fun slot => conn owner (slot, cache.nodes slot)) := by
  have split : (elements cache.maxSessions lists).Perm
      (elements cache.maxSessions (update lists hash left) ++ gone) := by
    have old := @elements_split _ _ lists _ inside
    have new := @elements_update _ _ lists _ inside left
    refine (old.trans (parts.append_right _)).trans ?_
    refine List.Perm.trans ?_ (new.append_right gone).symm
    rw [append_assoc, append_assoc]
    exact List.perm_append_comm.append_left _
  have distinct : (elements cache.maxSessions (update lists hash left) ++ gone).Nodup :=
    split.nodup_iff.mp (nodup_append.mp linked.distinct_all).2.1
  have same : contents fresh after (update lists hash left) =
      (elements cache.maxSessions (update lists hash left)).map fun slot =>
        conn owner (slot, cache.nodes slot) := by
    unfold contents
    rw [sessions]
    apply List.map_congr_left
    intro slot member
    have absent : slot ∉ gone :=
      fun late => (nodup_append.mp distinct).2.2 slot member slot late rfl
    exact conn_of_label (labels slot absent) (owners slot absent)
  rw [same, <- map_append]
  exact split.map _

structure Follows (cache after : SConnCache δ) (later : Nat -> List Nat) : Prop where
  linked : Linked after later
  sessions : after.maxSessions = cache.maxSessions
  keep : after.keepTimer = cache.keepTimer

theorem Follows.trans (first : Follows cache other lists) (second : Follows other after later) :
    Follows cache after later where
  linked := second.linked
  sessions := second.sessions.trans first.sessions
  keep := second.keep.trans first.keep

def Sheds (cache after : SConnCache δ) (lists later : Nat -> List Nat) (gone : List (Held δ)) :
    Prop :=
  Follows cache after later ∧ ∀ owner,
    (contents owner cache lists).Perm (contents owner after later ++ gone.map (conn owner))

theorem Sheds.refl (linked : Linked cache lists) : Sheds cache cache lists lists [] := by
  refine ⟨⟨linked, rfl, rfl⟩, fun owner => ?_⟩
  rw [List.map_nil, append_nil]

theorem Sheds.trans {between : Nat -> List Nat} {early late : List (Held δ)}
    (first : Sheds cache other lists between early) (second : Sheds other after between later late) :
    Sheds cache after lists later (early ++ late) := by
  refine ⟨first.1.trans second.1, fun owner => ?_⟩
  refine (first.2 owner).trans (((second.2 owner).append_right _).trans ?_)
  rw [map_append, append_assoc]
  exact List.perm_append_comm.append_left _

theorem removeExpired_sheds (linked : Linked cache lists) (inside : hash < cache.maxSessions)
    {front rest : List Nat} (parts : lists hash = front ++ rest) :
    ∃ after kept gone, taosRemoveExpiredNodes cache rest.head? hash time = some (after, gone) ∧
      Sheds cache after lists (update lists hash (front ++ kept)) gone ∧
      ∀ slot ∈ front, label after slot = label cache slot := by
  rcases @removeExpired_cases _ _ _ _ time _ linked inside _ parts with
    ⟨result, -⟩ | ⟨-, result⟩
  · refine ⟨cache, rest, [], result, ?_, fun _ _ => rfl⟩
    rw [<- parts, update_eq_self]
    exact Sheds.refl linked
  · obtain ⟨cut, labels⟩ := linked.cut inside parts
    obtain ⟨sessions, -, -, -, keep⟩ :=
      @setForward_rest _ (drained cache hash rest) hash (endOf .head front) none
    have distinct := linked.distinct inside
    rw [parts] at distinct
    refine ⟨_, [], _, result, ?_, fun slot member => labels slot fun gone =>
      (nodup_append.mp distinct).2.2 slot member slot gone rfl⟩
    rw [append_nil]
    refine ⟨⟨cut, sessions, keep⟩, fun owner => ?_⟩
    rw [map_map]
    exact contents_change linked inside sessions (parts ▸ List.Perm.refl _) labels fun _ _ => rfl

theorem chain_head {next : Nat -> Option Nat} {start : Option Nat} {nodes : List Nat}
    (chain : Chain next start nodes) : start = nodes.head? := by
  cases nodes with
  | nil => exact chain
  | cons first rest => exact chain.1

theorem next_of_linked (linked : Linked cache lists) (inside : hash < cache.maxSessions)
    {front rest : List Nat} (parts : lists hash = front ++ slot :: rest) :
    (cache.nodes slot).next = rest.head? := by
  have path := linked.path hash inside
  rw [parts] at path
  exact chain_head (chain_of_path path.behind.2.2)

theorem unlinkNode_rest : (unlinkNode cache slot hash).maxSessions = cache.maxSessions ∧
      (unlinkNode cache slot hash).keepTimer = cache.keepTimer := by
  unfold unlinkNode setForward
  cases (cache.nodes slot).prev <;> simp only <;> split <;> exact ⟨rfl, rfl⟩

theorem unlinkNode_sheds (linked : Linked cache lists) (inside : hash < cache.maxSessions)
    {front rest : List Nat} (parts : lists hash = front ++ slot :: rest) :
    Sheds cache (unlinkNode cache slot hash) lists (update lists hash (front ++ rest))
      [(slot, cache.nodes slot)] := by
  obtain ⟨without, labels⟩ := linked.unlink inside parts
  obtain ⟨sessions, keep⟩ := @unlinkNode_rest _ cache hash slot
  refine ⟨⟨without, sessions, keep⟩, fun owner => ?_⟩
  refine @contents_change _ _ _ _ _ _ _ linked inside sessions _ [slot] ?_ ?_ fun _ _ => rfl
  · rw [parts, append_assoc]
    exact (@List.perm_append_comm _ [slot] rest).append_left _
  · intro other absent
    exact labels other fun same => absent (by rw [same]; exact mem_cons_self)

theorem cleanLists_sheds {hashes : List Nat} : ∀ {cache : SConnCache δ} {lists : Nat -> List Nat},
    Linked cache lists -> (∀ hash ∈ hashes, hash < cache.maxSessions) ->
      ∃ after later gone, cleanLists time hashes cache = some (after, gone) ∧
        Sheds cache after lists later gone := by
  induction hashes with
  | nil => exact fun linked _ => ⟨_, _, [], rfl, Sheds.refl linked⟩
  | cons hash rest ih =>
    intro cache lists linked inside
    have here := inside hash mem_cons_self
    obtain ⟨first, kept, early, result, shed, -⟩ :=
      @removeExpired_sheds _ _ _ _ time linked here [] (lists hash) rfl
    obtain ⟨after, later, late, results, sheds⟩ := ih shed.1.linked fun another member => by
      rw [shed.1.sessions]
      exact inside another (List.mem_cons_of_mem _ member)
    refine ⟨after, later, early ++ late, ?_, shed.trans sheds⟩
    rw [cleanLists, show cache.connHashList hash = _ from
      chain_head (chain_of_path (linked.path _ here)), result, bind_some, results, map_some]

theorem clean_sheds (linked : Linked cache lists) (tmrId nextTimer time : Nat) :
    ∃ after later gone, taosCleanConnCache cache tmrId nextTimer time = some (after, gone) ∧
      Sheds cache after lists later gone := by
  unfold taosCleanConnCache
  by_cases empty : cache.maxSessions = 0
  · exact ⟨cache, lists, [], if_pos empty, Sheds.refl linked⟩
  · by_cases old : cache.pTimer ≠ tmrId
    · exact ⟨cache, lists, [], by rw [if_neg empty, if_pos old], Sheds.refl linked⟩
    · obtain ⟨after, later, gone, result, sheds⟩ := @cleanLists_sheds _ time
        (List.range cache.maxSessions) _ _ linked fun hash member => List.mem_range.mp member
      refine ⟨{ after with pTimer := nextTimer }, later, gone, ?_, ⟨⟨?_, ?_, ?_⟩, sheds.2⟩⟩
      · rw [if_neg empty, if_neg old, result, map_some]
      · exact ⟨sheds.1.linked.path, sheds.1.linked.pool, sheds.1.linked.count,
          sheds.1.linked.total, sheds.1.linked.newest⟩
      · exact sheds.1.sessions
      · exact sheds.1.keep

theorem lookup_cases (ip : UInt32) (port : UInt16) {nodes : List Nat} : ∀ {fuel : Nat}
    {start : Option Nat}, Chain (fun slot => (cache.nodes slot).next) start nodes ->
      nodes.length ≤ fuel -> lookup cache ip port time fuel start = some .missing ∨
        (∃ front slot rest, nodes = front ++ slot :: rest ∧
          lookup cache ip port time fuel start = some (.expired slot)) ∨
        ∃ front slot rest, nodes = front ++ slot :: rest ∧
          lookup cache ip port time fuel start = some (.found slot) ∧ time < expiry cache slot ∧
            newestOf cache ip port nodes = some slot := by
  induction nodes with
  | nil =>
    intro fuel start chain _
    rw [show start = none from chain]
    left
    cases fuel <;> rfl
  | cons slot rest ih =>
    intro fuel start chain enough
    obtain ⟨rfl, behind⟩ := chain
    cases fuel with
    | zero => cases enough
    | succ fuel =>
      by_cases old : expiry cache slot ≤ time
      · exact Or.inr (Or.inl ⟨[], slot, rest, rfl, by rw [lookup, if_pos old]⟩)
      · by_cases own : (cache.nodes slot).ip = ip ∧ (cache.nodes slot).port = port
        · refine Or.inr (Or.inr ⟨[], slot, rest, rfl, ?_, not_le.mp old, ?_⟩)
          · rw [lookup, if_neg old, if_pos own]
          · exact List.find?_cons_of_pos (by rw [decide_eq_true own])
        · rw [lookup, if_neg old, if_neg own]
          rcases ih behind (Nat.le_of_succ_le_succ enough) with
            missing | ⟨front, found, tail, parts, stops⟩ |
              ⟨front, found, tail, parts, stops, young, newest⟩
          · exact Or.inl missing
          · exact Or.inr (Or.inl ⟨slot :: front, found, tail, by rw [parts]; rfl, stops⟩)
          · refine Or.inr (Or.inr ⟨slot :: front, found, tail, by rw [parts]; rfl, stops,
              young, ?_⟩)
            rw [newestOf, List.find?_cons_of_neg (by rw [decide_eq_false own]; exact Bool.false_ne_true)]
            exact newest

variable {port : UInt16} {ip : UInt32} {user : User}

theorem hash_inside (sessions : 0 < cache.maxSessions)
    (natural : 0 ≤ taosHashConn cache.maxSessions ip port user) :
    (taosHashConn cache.maxSessions ip port user).toNat < cache.maxSessions := by
  have below : taosHashConn cache.maxSessions ip port user < cache.maxSessions :=
    Int.tmod_lt_of_pos _ (by exact_mod_cast sessions)
  omega

theorem expiry_le (slot : Nat) : expiry cache slot ≤ cache.keepTimer + (cache.nodes slot).time :=
  Nat.mod_le _ _

section

variable (linked : Linked cache lists)
include linked

/-- What `taosGetConnFromCache` hands out is the newest connection of the address and
the port, before it has expired. -/
theorem get_sheds (sessions : 0 < cache.maxSessions) {ip : UInt32} {port : UInt16} {user : User}
    (natural : 0 ≤ taosHashConn cache.maxSessions ip port user) : ∃ after later found gone,
      taosGetConnFromCache cache ip port user time = some (after, found, gone) ∧
        Sheds cache after lists later (gone ++ found.toList) ∧
        ∀ held, found = some held -> time < expiry cache held.1 ∧ newestOf cache ip port
            (lists (taosHashConn cache.maxSessions ip port user).toNat) = some held.1 ∧
          (held.2.ip, held.2.port, held.2.data, held.2.time) = label cache held.1 := by
  have inside := hash_inside sessions natural
  unfold taosGetConnFromCache
  simp only [Nat.ne_of_gt sessions, not_lt.mpr natural, if_false]
  generalize (taosHashConn cache.maxSessions ip port user).toNat = hash at inside ⊢
  rcases @lookup_cases _ cache time ip port _ _ _ (chain_of_path (linked.path hash inside))
      (linked.short inside) with
    stops | ⟨front, slot, rest, parts, stops⟩ | ⟨front, slot, rest, parts, stops, young, newest⟩
  · refine ⟨cache, lists, none, [], ?_, Sheds.refl linked, fun held none' => by cases none'⟩
    change (lookup _ _ _ _ _ (nextOf cache hash .head)).bind _ = _
    rw [stops]
    rfl
  · obtain ⟨after, kept, gone, result, sheds, -⟩ :=
      @removeExpired_sheds _ _ _ _ time linked inside _ _ parts
    refine ⟨after, update lists hash (front ++ kept), none, gone, ?_, ?_,
      fun held none' => by cases none'⟩
    · change (lookup _ _ _ _ _ (nextOf cache hash .head)).bind _ = _
      rw [stops, bind_some]
      rw [List.head?_cons] at result
      simp only [result, map_some]
    · rw [Option.toList_none, append_nil]
      exact sheds
  · have inFront : lists hash = (front ++ [slot]) ++ rest := by
      rw [parts, append_assoc, List.singleton_append]
    obtain ⟨between, kept, gone, result, sheds, labels⟩ :=
      @removeExpired_sheds _ _ _ _ time linked inside _ _ inFront
    have insideAgain : hash < between.maxSessions := by rwa [sheds.1.sessions]
    have partsAgain : update lists hash (front ++ [slot] ++ kept) hash = front ++ slot :: kept := by
      rw [update_self, append_assoc, List.singleton_append]
    have unlinked := unlinkNode_sheds sheds.1.linked insideAgain partsAgain
    refine ⟨_, _, some (slot, between.nodes slot), gone, ?_, sheds.trans unlinked, ?_⟩
    · change (lookup _ _ _ _ _ (nextOf cache hash .head)).bind _ = _
      rw [stops, bind_some]
      simp only [next_of_linked linked inside parts, result, map_some]
    · rintro held same
      cases same
      exact ⟨young, newest, labels slot (List.mem_append_right _ mem_cons_self)⟩

theorem pool_nonempty (room : cache.total < cache.maxSessions) :
    ∃ slot rest, cache.freeList = slot :: rest := by
  have length := linked.pool.length_eq
  have total := linked.total
  rw [List.length_append, List.length_range] at length
  cases free : cache.freeList with
  | nil =>
    rw [free, List.length_nil] at length
    omega
  | cons slot rest => exact ⟨slot, rest, rfl⟩

theorem push_follows (inside : hash < cache.maxSessions)
    {rest : List Nat} (free : cache.freeList = slot :: rest) {node : SConnHash δ}
    (noPrev : node.prev = none)
    (newest : ∀ other ∈ lists hash, (cache.nodes other).time ≤ node.time) :
    let pushed := tally (pushNode (filled cache rest slot node) slot hash) hash 1
    let longer := update lists hash (slot :: lists hash)
    Follows cache pushed longer ∧ ∀ owner user,
      let fresh := update owner slot user
      (conn fresh (slot, node) :: contents owner cache lists).Perm
        (contents fresh pushed longer) := by
  intro pushed longer
  obtain ⟨linked', ownLabel, labels⟩ := linked.push inside free noPrev newest
  obtain ⟨sessions, -, -, -, keep, -⟩ := @pushNode_rest _ (filled cache rest slot node) hash slot
  refine ⟨⟨linked', sessions, keep⟩, fun owner user => ?_⟩
  intro fresh
  have insideAgain : hash < pushed.maxSessions := inside.trans_eq sessions.symm
  have parts : (longer hash).Perm (lists hash ++ [slot]) := by
    rw [show longer hash = _ from update_self _ _ _]
    exact (List.perm_append_singleton _ _).symm
  have back := @contents_change _ pushed cache longer hash fresh owner linked' insideAgain
    sessions.symm _ _ parts
    (fun other absent => (labels other (List.ne_of_not_mem_cons absent)).symm)
    (fun other absent => (Function.update_of_ne (List.ne_of_not_mem_cons absent) _ _).symm)
  rw [show update longer hash (lists hash) = lists by
    rw [update_idem, update_eq_self]] at back
  have new : conn fresh (slot, pushed.nodes slot) = conn fresh (slot, node) :=
    conn_of_label ownLabel rfl
  rw [List.map_singleton, new] at back
  exact (List.perm_append_singleton _ _).symm.trans back.symm

theorem add_sheds (sessions : 0 < cache.maxSessions) {data : Option δ} (given : data.isSome)
    (room : cache.total < cache.maxSessions)
    (natural : 0 ≤ taosHashConn cache.maxSessions ip port user)
    (past : ∀ hash < cache.maxSessions, ∀ slot ∈ lists hash, (cache.nodes slot).time ≤ time) :
    ∃ after later slot gone,
      taosAddConnIntoCache cache data ip port user time = some (after, some slot, gone) ∧
        Follows cache after later ∧ ∀ owner,
          ({ ip, port, user, data, time } :: contents owner cache lists).Perm
            (contents (update owner slot user) after later ++
              gone.map (conn (update owner slot user))) := by
  have inside := hash_inside sessions natural
  obtain ⟨slot, rest, free⟩ := pool_nonempty linked room
  have notNone : data.isNone = false := by
    rw [<- not_isSome, given]
    rfl
  unfold taosAddConnIntoCache taosMemPoolMalloc
  simp only [Nat.ne_of_gt sessions, notNone, if_false, Bool.false_eq_true, free, bind_some,
    not_lt.mpr natural]
  generalize (taosHashConn cache.maxSessions ip port user).toNat = hash at inside ⊢
  have refilled : ∀ node : SConnHash δ,
      setNode (setNode { cache with freeList := rest } slot zeroNode) slot node =
        filled cache rest slot node := by
    intro node
    simp only [filled, setNode, update_idem]
  rw [refilled]
  obtain ⟨pushed, adds⟩ := @push_follows _ _ _ _ _ linked inside _ free
    { ip, port, prev := none, next := none, data, time } rfl (past hash inside)
  have insideAgain := inside.trans_eq pushed.sessions.symm
  have first : update lists hash (slot :: lists hash) hash = [] ++ slot :: lists hash :=
    update_self _ _ _
  obtain ⟨after, kept, gone, result, sheds, -⟩ :=
    @removeExpired_sheds _ _ _ _ time pushed.linked insideAgain [slot] (lists hash) first
  refine ⟨after, _, slot, gone, ?_, pushed.trans sheds.1, fun owner => ?_⟩
  · rw [next_of_linked pushed.linked insideAgain first, result]
    rfl
  · have new : conn (update owner slot user)
        (slot, { ip, port, prev := none, next := none, data, time }) =
          { ip, port, user, data, time } := by
      simp only [conn, update_self]
    rw [<- new]
    exact (adds owner user).trans (sheds.2 _)

end

/-- What the operations keep: the lists are linked, and every connection is accounted
for. -/
structure Kept (keepTimer now : Nat) (world : World δ) (cache : SConnCache δ)
    (lists : Nat -> List Nat) : Prop where
  handle : world.handle = some cache
  linked : Linked cache lists
  sessions : 0 < cache.maxSessions
  keep : cache.keepTimer = keepTimer
  past : ∀ held ∈ contents world.owner cache lists, held.time ≤ now
  once : world.added.Perm
    (contents world.owner cache lists ++ (world.handed.map Prod.fst ++ world.cleaned))
  right : ∀ given ∈ world.handed, Right keepTimer given

variable {keepTimer now : Nat} {world next : World δ}

section

variable (kept : Kept keepTimer now world cache lists)
include kept

section

variable (rises : now ≤ time)
include rises

theorem Kept.moves (follows : Follows cache after later) (handle : next.handle = some after)
    {new gone : List (Conn δ)} (present : ∀ held ∈ new, held.time ≤ time)
    (added : next.added = new ++ world.added)
    (moved : (new ++ contents world.owner cache lists).Perm
      (contents next.owner after later ++ gone))
    (out : (next.handed.map Prod.fst ++ next.cleaned).Perm
      (gone ++ (world.handed.map Prod.fst ++ world.cleaned)))
    (right : ∀ given ∈ next.handed, Right keepTimer given) :
    Kept keepTimer time next after later where
  handle := handle
  linked := follows.linked
  sessions := by
    rw [follows.sessions]
    exact kept.sessions
  keep := follows.keep.trans kept.keep
  past := by
    intro held member
    have before := moved.mem_iff.mpr (List.mem_append_left gone member)
    rcases List.mem_append.mp before with fresh | old
    · exact present held fresh
    · exact (kept.past held old).trans rises
  once := by
    rw [added]
    calc (new ++ world.added).Perm _ := kept.once.append_left new
      _ = (new ++ contents world.owner cache lists) ++
          (world.handed.map Prod.fst ++ world.cleaned) := (append_assoc _ _ _).symm
      List.Perm _ ((contents next.owner after later ++ gone) ++ _) := moved.append_right _
      _ = contents next.owner after later ++
          (gone ++ (world.handed.map Prod.fst ++ world.cleaned)) := append_assoc _ _ _
      List.Perm _ _ := out.symm.append_left _
  right := right

theorem Kept.time_le :
    ∀ hash < cache.maxSessions, ∀ slot ∈ lists hash, (cache.nodes slot).time ≤ time := by
  intro hash inside slot member
  have inLists := mem_elements.mpr ⟨hash, inside, member⟩
  exact (kept.past _ (List.mem_map_of_mem inLists)).trans rises

theorem Kept.add {data : Option δ} {ip : UInt32} {port : UInt16} {user : User}
    (fits : Fits world time (.add data ip port user)) :
    ∃ next after later, step world time (.add data ip port user) = some next ∧
      Kept keepTimer time next after later := by
  obtain ⟨_, owner, added, handed, cleaned⟩ := world
  obtain rfl := kept.handle
  by_cases given : data.isSome
  · obtain ⟨room, natural⟩ := fits given cache rfl
    obtain ⟨after, later, slot, gone, result, follows, adds⟩ :=
      add_sheds kept.linked kept.sessions given room natural (kept.time_le rises)
    refine ⟨_, after, later, congrArg (Option.map _) result, ?_⟩
    refine @Kept.moves _ _ after _ later _ _ _ _ _ kept rises follows rfl [_] _ ?_ rfl (adds owner)
      ?_ kept.right
    · intro held member
      rw [List.mem_singleton.mp member]
    · exact List.perm_append_comm_assoc _ _ _
  · have nothing : taosAddConnIntoCache cache data ip port user time = some (cache, none, []) := by
      unfold taosAddConnIntoCache
      rw [if_neg (Nat.ne_of_gt kept.sessions), if_pos]
      rwa [<- not_isSome, Bool.not_eq_true', <- Bool.not_eq_true]
    refine ⟨_, cache, lists, congrArg (Option.map _) nothing, ?_⟩
    refine @Kept.moves _ _ cache _ lists _ _ _ _ _ kept rises ⟨kept.linked, rfl, rfl⟩ rfl [] [] ?_
      rfl ?_
      (List.Perm.refl _) kept.right
    · intro held member
      cases member
    · rw [append_nil]
      exact List.Perm.refl _

theorem Kept.get (fits : Fits world time (.get ip port user)) :
    ∃ next after later, step world time (.get ip port user) = some next ∧
      Kept keepTimer time next after later := by
  obtain ⟨_, owner, added, handed, cleaned⟩ := world
  obtain rfl := kept.handle
  obtain ⟨natural, own⟩ := fits cache rfl
  rw [Linked.slots_eq kept.linked (hash_inside kept.sessions natural)] at own
  obtain ⟨after, later, found, gone, result, sheds, held⟩ :=
    @get_sheds _ _ _ time kept.linked kept.sessions _ _ _ natural
  refine ⟨_, after, later, congrArg (Option.map _) result, ?_⟩
  refine @Kept.moves _ _ after _ later _ _ _ _ _ kept rises sheds.1 rfl [] _ ?_ rfl
    (sheds.2 owner) ?_ ?_
  · intro held member
    cases member
  · change List.Perm (List.map _ (List.map _ found.toList ++ handed) ++
      (gone.map (conn owner) ++ cleaned)) _
    rw [map_append, map_append, map_map]
    change List.Perm (found.toList.map (conn owner) ++ handed.map Prod.fst ++ _) _
    rw [append_assoc, append_assoc]
    exact (List.perm_append_comm_assoc _ _ _).append_left _ |>.trans
      (List.perm_append_comm_assoc _ _ _)
  · intro given member
    rcases List.mem_append.mp member with fresh | old
    · obtain ⟨node, isFound, rfl⟩ := mem_map.mp fresh
      obtain ⟨young, newest, same⟩ := held node (Option.mem_toList.mp isFound)
      have matching := List.find?_some newest
      rw [decide_eq_true_eq] at matching
      have before := young.trans_le (expiry_le node.1)
      simp only [label, Prod.mk.injEq] at same
      obtain ⟨ip, port, -, time⟩ := same
      rw [kept.keep, <- time] at before
      refine ⟨before, ip.trans matching.1, port.trans matching.2, ?_⟩
      exact (own node.1 newest).resolve_left (not_le.mpr young)
    · exact kept.right given old

theorem Kept.clean (tmrId nextTimer : Nat) :
    ∃ next after later, step world time (.clean tmrId nextTimer) = some next ∧
      Kept keepTimer time next after later := by
  obtain ⟨_, owner, added, handed, cleaned⟩ := world
  obtain rfl := kept.handle
  obtain ⟨after, later, gone, result, sheds⟩ := clean_sheds kept.linked tmrId nextTimer time
  refine ⟨_, after, later, congrArg (Option.map _) result, ?_⟩
  refine @Kept.moves _ _ after _ later _ _ _ _ _ kept rises sheds.1 rfl [] _ ?_ rfl
    (sheds.2 owner) ?_ kept.right
  · intro held member
    cases member
  · exact List.perm_append_comm_assoc _ _ _

theorem Kept.step {event : Event δ} (fits : Fits world time event) :
    ∃ next after later, step world time event = some next ∧
      Kept keepTimer time next after later := by
  cases event with
  | add data ip port user => exact kept.add rises fits
  | get ip port user => exact kept.get rises fits
  | clean tmrId nextTimer => exact kept.clean rises tmrId nextTimer

end

end

variable {events : List (Nat × Event δ)}

theorem Kept.run : ∀ {now : Nat} {world : World δ}
    {cache : SConnCache δ} {lists : Nat -> List Nat}, Kept keepTimer now world cache lists ->
      (now :: events.map Prod.fst).Pairwise (· ≤ ·) -> FitsRun world events ->
        ∃ now last after later, run world events = some last ∧
          Kept keepTimer now last after later := by
  induction events with
  | nil => exact fun {now world cache lists} kept _ _ => ⟨now, world, cache, lists, rfl, kept⟩
  | cons event rest ih =>
    intro now world cache lists kept rising fits
    rw [List.map_cons, List.pairwise_cons] at rising
    obtain ⟨next, after, later, result, keeps⟩ :=
      kept.step (rising.1 _ mem_cons_self) fits.1
    obtain ⟨endTime, last, afterAll, laterAll, results, keepsAll⟩ :=
      ih keeps rising.2 (fits.2 next result)
    refine ⟨endTime, last, afterAll, laterAll, ?_, keepsAll⟩
    rw [ConnCacheRuns.run, result, bind_some, results]

theorem consistent_of_linked (linked : Linked cache lists) : Consistent cache where
  links := by
    intro hash inside
    rw [linked.slots_eq inside]
    exact linked.path hash inside
  apart := by
    rw [elements_congr fun hash inside => linked.slots_eq inside]
    exact (nodup_append.mp linked.distinct_all).2.1
  count := by
    intro hash inside
    rw [linked.slots_eq inside]
    exact linked.count hash inside
  total := by
    have counts : (List.range cache.maxSessions).map cache.count =
        (List.range cache.maxSessions).map fun hash => ((lists hash).length : Int) :=
      List.map_congr_left fun hash member => linked.count hash (List.mem_range.mp member)
    rw [linked.total, counts, elements, List.length_flatMap, Nat.cast_list_sum, map_map]
    rfl
  newest := by
    intro hash inside
    rw [linked.slots_eq inside]
    exact linked.newest hash inside

theorem Kept.sound (kept : Kept keepTimer now world cache lists) : Sound keepTimer world where
  lists := by
    intro other same
    rw [kept.handle] at same
    cases same
    exact consistent_of_linked kept.linked
  once := by
    have same : cached world = contents world.owner cache lists := by
      unfold cached contents
      rw [kept.handle, <- elements_congr fun hash inside => kept.linked.slots_eq inside]
    rw [same]
    exact kept.once
  right := kept.right

theorem empty_linked (maxSessions keepTimer pTimer : Nat) : @Linked δ {
      connHashList := fun _ => none
      nodes := fun _ => zeroNode
      freeList := List.range maxSessions
      maxSessions, keepTimer, pTimer
      total := 0
      count := fun _ => 0 } fun _ => [] := by
  have none' : elements maxSessions (fun _ => ([] : List Nat)) = [] := by
    unfold elements
    exact List.flatMap_eq_nil_iff.mpr fun _ _ => rfl
  refine ⟨fun _ _ => rfl, ?_, fun _ _ => rfl, ?_, fun _ _ => List.Pairwise.nil⟩
  · rw [none', append_nil]
  · rw [none']
    rfl

theorem run_unopened (unopened : world.handle = none) : run world events = some world := by
  have stays : ∀ time event, step world time event = some world := by
    intro time event
    unfold step
    rw [unopened]
  induction events with
  | nil => rfl
  | cons event rest ih => rw [run, stays, bind_some, ih]

/-- A run under a clock that does not go back, whose operations all find a free node,
a natural hash and a connection of the user, has every connection in its place. -/
theorem sound_of_fits (maxSessions keepTimer pTimer : Nat) (events : List (Nat × Event δ))
    (rising : (events.map Prod.fst).Pairwise (· ≤ ·))
    (fits : FitsRun (opened maxSessions keepTimer pTimer) events) :
    ∃ world, run (opened maxSessions keepTimer pTimer) events = some world ∧
      Sound keepTimer world := by
  by_cases small : maxSessions ≤ 1
  · have unopened : (opened maxSessions keepTimer pTimer : World δ).handle = none := if_pos small
    refine ⟨_, run_unopened unopened, ?_, ?_, fun given member => by cases member⟩
    · intro cache same
      rw [unopened] at same
      cases same
    · unfold cached
      rw [unopened]
      exact List.Perm.refl _
  · have none' : elements maxSessions (fun _ => ([] : List Nat)) = [] :=
      List.flatMap_eq_nil_iff.mpr fun _ _ => rfl
    have kept : Kept keepTimer 0 (opened maxSessions keepTimer pTimer : World δ) _ fun _ => [] :=
      { handle := if_neg small
        linked := empty_linked maxSessions keepTimer pTimer
        sessions := by
          change 0 < maxSessions
          omega
        keep := rfl
        past := by
          change ∀ held ∈ (elements maxSessions _).map _, _
          rw [none']
          exact fun held member => by cases member
        once := by
          change List.Perm [] ((elements maxSessions _).map _ ++ ([] ++ []))
          rw [none']
          exact List.Perm.refl _
        right := fun given member => by cases member }
    have fromZero : (0 :: events.map Prod.fst).Pairwise (· ≤ ·) :=
      List.pairwise_cons.mpr ⟨fun time _ => Nat.zero_le time, rising⟩
    obtain ⟨now, last, after, later, result, keeps⟩ := kept.run fromZero fits
    exact ⟨last, result, keeps.sound⟩

/-- A connection is added and handed out again. -/
theorem sound_of_ownConnection :
    ∃ world : World Unit, run (opened 2 10 0) [(1, .add (some ()) 1 2 [97]), (2, .get 1 2 [97])] =
      some world ∧ Sound 10 world := by
  apply sound_of_fits 2 10 0
  · decide
  · refine ⟨fun _ cache same => ?_, fun next same => ⟨fun cache handle => ?_, fun _ _ => trivial⟩⟩
    · cases same
      decide
    · cases same
      cases handle
      decide

def sameSum : List (Nat × Event Unit) :=
  [(1, .add (some ()) 1 2 [97, 98]), (2, .get 1 2 [98, 97])]

/-- The second user gets the connection of the first one; and a third connection is
written to a NULL node. -/
theorem otherUser_handed :
    (∃ world : World Unit, run (opened 2 10 0) sameSum = some world ∧ ¬ Sound 10 world) ∧
      run (opened 2 10 0) [(1, .add (some ()) 1 2 []), (1, .add (some ()) 1 2 []),
        (1, .add (some ()) 1 2 [])] = none := by
  have users : (run (opened 2 10 0) sameSum).map (fun world =>
      world.handed.map fun given => (given.1.user, given.2.user)) =
        some [([97, 98], [98, 97])] := rfl
  obtain ⟨world, result, handed⟩ := Option.map_eq_some_iff.mp users
  refine ⟨⟨world, result, fun sound => ?_⟩, rfl⟩
  have member : (([97, 98], [98, 97]) : User × User) ∈
      world.handed.map fun given => (given.1.user, given.2.user) := by
    rw [handed]
    exact List.mem_singleton_self _
  obtain ⟨given, inHanded, same⟩ := mem_map.mp member
  have own := (sound.right given inHanded).2.2.2
  simp only [Prod.mk.injEq] at same
  rw [same.1, same.2] at own
  revert own
  decide

end Runs

end Luomi.Client.ConnCacheRuns
