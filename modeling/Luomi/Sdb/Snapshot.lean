import Luomi.Sdb.Operations

/-!
# Snapshots

A snapshot is the file of a table in which every row has been inserted once, in
the order of the hash chains.  Its replay gives the rows back.
-/

namespace Luomi.Sdb.Snapshot

open HashIndex Engine Recovery Replay History OpenFile Tally
open List (foldl_cons foldl_nil map_append map_cons map_singleton mem_append mem_append_left
  mem_singleton)

theorem flatMap_buckets_perm {α : Type} (hash : α -> Nat) (buckets : Nat) :
    ∀ (items : List α), (∀ item ∈ items, hash item < buckets) ->
      ((List.range buckets).flatMap fun bucket =>
        items.filter fun item => hash item = bucket).Perm items := by
  induction buckets with
  | zero =>
    intro items inside
    have empty : items = [] :=
      List.eq_nil_iff_forall_not_mem.mpr fun item member => Nat.not_lt_zero _ (inside item member)
    rw [empty]
    exact List.Perm.refl _
  | succ buckets ih =>
    intro items inside
    have lower : ∀ item ∈ items.filter (fun item => ¬ hash item = buckets), hash item < buckets := by
      intro item member
      obtain ⟨here, other⟩ := List.mem_filter.mp member
      have below := inside item here
      have differs : ¬ hash item = buckets := of_decide_eq_true other
      omega
    have sameBuckets : ((List.range buckets).flatMap fun bucket =>
        items.filter fun item => hash item = bucket) =
        (List.range buckets).flatMap fun bucket =>
          (items.filter fun item => ¬ hash item = buckets).filter fun item =>
            hash item = bucket := by
      refine List.flatMap_congr fun bucket member => ?_
      rw [List.filter_filter]
      refine List.filter_congr fun item _ => ?_
      have below := List.mem_range.mp member
      by_cases same : hash item = bucket
      · simp [same, Nat.ne_of_lt below]
      · simp [same]
    rw [List.range_succ, List.flatMap_append, List.flatMap_singleton, sameBuckets]
    refine ((ih _ lower).append_right _).trans ?_
    refine List.perm_append_comm.trans ?_
    have split := List.filter_append_perm (fun item => decide (hash item = buckets)) items
    simpa using split

section Snapshot

variable {Obj : Type} {args : TableArgs Obj}

theorem sdbFetchRows_perm (args : TableArgs Obj) (index : List (Entry Obj)) :
    (sdbFetchRows args.keyType args.maxRows index).Perm index :=
  flatMap_buckets_perm (fun entry : Entry Obj => hashOf args.keyType args.maxRows entry.key)
    args.maxRows index fun entry _ => by
      cases args.keyType <;> exact Nat.mod_lt _ args.maxRowsPos

def entryRecord (args : TableArgs Obj) (entry : Entry Obj) : Record :=
  ⟨entry.id, args.appTool.encode entry.row⟩

def snapshotGroups (args : TableArgs Obj) (index : List (Entry Obj)) : List (List Record) :=
  (sdbFetchRows args.keyType args.maxRows index).map fun entry => [entryRecord args entry]

theorem snapshotGroups_flatten (index : List (Entry Obj)) : (snapshotGroups args index).flatten =
      (sdbFetchRows args.keyType args.maxRows index).map (entryRecord args) := by
  rw [snapshotGroups]
  induction sdbFetchRows args.keyType args.maxRows index with
  | nil => rfl
  | cons entry rest ih => rw [map_cons, List.flatten_cons, ih, map_cons]; rfl

variable {table : SdbTable Obj}

theorem sdbSaveSnapShot_file (header : table.header = headerBytes args.crc32c args.version) :
    (sdbSaveSnapShot args table).file = fileOf args (snapshotGroups args table.index) := by
  have rows : snapshotRows args table =
      (snapshotGroups args table.index).flatMap (groupBytes args) := by
    rw [snapshotRows, snapshotGroups, List.flatMap_map]
    refine List.flatMap_congr fun entry _ => ?_
    rw [groupBytes, List.flatMap_singleton]
    rfl
  rw [sdbSaveSnapShot, fileOf, newFile, rows, header]

structure Entries (args : TableArgs Obj) (entries : List (Entry Obj)) : Prop where
  distinct : (entries.map Entry.key).Nodup
  keys : ∀ entry ∈ entries, entry.key = objKey args entry.row
  positive : ∀ entry ∈ entries, 0 < entry.id

section Entries

variable {entries : List (Entry Obj)}

theorem rowsOf_entries (sound : Entries args entries) :
    (∀ entry ∈ entries, rowsOf args (entries.map (entryRecord args)) entry.key = some entry.row) ∧
      ∀ key, key ∉ entries.map Entry.key -> rowsOf args (entries.map (entryRecord args)) key = none
        := by
  induction entries using List.reverseRecOn with
  | nil => exact ⟨by simp, fun key _ => rfl⟩
  | append_singleton entries entry ih =>
    have distinct := sound.distinct
    rw [map_append, List.nodup_append] at distinct
    obtain ⟨front, -, apart⟩ := distinct
    obtain ⟨present, absent⟩ := ih ⟨front,
      fun other member => sound.keys other (mem_append_left _ member),
      fun other member => sound.positive other (mem_append_left _ member)⟩
    have own := sound.keys entry (by simp)
    have notNegative : ¬ entry.id < 0 := not_lt_of_gt (sound.positive entry (by simp))
    have last : ∀ key, rowsOf args ((entries ++ [entry]).map (entryRecord args)) key =
        if key = entry.key then some entry.row
        else rowsOf args (entries.map (entryRecord args)) key := by
      intro key
      rw [map_append, rowsOf_append, map_singleton, foldl_cons, foldl_nil,
        stepRows, entryRecord, encoded_key, <- own, if_neg notNegative, args.appTool.decode_encode]
    refine ⟨?_, ?_⟩
    · intro other member
      rw [last]
      rcases mem_append.mp member with earlier | final
      · have differs : other.key ≠ entry.key :=
          apart other.key (List.mem_map_of_mem earlier) entry.key (by simp)
        rw [if_neg differs]
        exact present other earlier
      · rw [mem_singleton.mp final, if_pos rfl]
    · intro key missing
      rw [map_append, mem_append, not_or, map_singleton, mem_singleton] at missing
      rw [last, if_neg missing.2]
      exact absent key missing.1

theorem tally_entries (sound : Entries args entries) :
    numOfDels args (entries.map (entryRecord args)) = 0 ∧
      numOfInserts args (entries.map (entryRecord args)) = entries.length := by
  induction entries using List.reverseRecOn with
  | nil => exact ⟨rfl, rfl⟩
  | append_singleton entries entry ih =>
    have distinct := sound.distinct
    rw [map_append, List.nodup_append] at distinct
    obtain ⟨front, -, apart⟩ := distinct
    have frontSound : Entries args entries := ⟨front,
      fun other member => sound.keys other (mem_append_left _ member),
      fun other member => sound.positive other (mem_append_left _ member)⟩
    obtain ⟨dels, inserts⟩ := ih frontSound
    have missing : entry.key ∉ entries.map Entry.key := by
      intro member
      exact apart entry.key member entry.key (by simp) rfl
    have absent : rowsOf args (entries.map (entryRecord args))
        (keyAt args.keyType (entryRecord args entry).data) = none := by
      rw [entryRecord, encoded_key, <- sound.keys entry (by simp)]
      exact (rowsOf_entries frontSound).2 entry.key missing
    have isNone : (rowsOf args (entries.map (entryRecord args))
        (keyAt args.keyType (entryRecord args entry).data)).isNone := by
      rw [absent]
      rfl
    have own : Inserts args (rowsOf args (entries.map (entryRecord args)))
        (entryRecord args entry) := ⟨isNone, sound.positive entry (by simp)⟩
    constructor
    · rw [map_append, map_singleton, numOfDels_concat, dels, delsOf, if_pos isNone]
    · rw [map_append, map_singleton, numOfInserts_concat, inserts, if_pos own,
        List.length_append, List.length_singleton]

end Entries

section

variable (sound : Sound args table)
include sound

theorem snapshot_entries : Entries args (sdbFetchRows args.keyType args.maxRows table.index) := by
  have permuted := sdbFetchRows_perm args table.index
  refine ⟨?_, ?_, ?_⟩
  · exact (permuted.map Entry.key).nodup_iff.mpr sound.distinct
  · exact fun entry member => sound.keys entry (permuted.mem_iff.mp member)
  · exact fun entry member => (sound.ids entry (permuted.mem_iff.mp member)).1

theorem snapshot_recordable (below : table.id < 2 ^ 63) :
    ∀ group ∈ snapshotGroups args table.index, ∀ record ∈ group,
      Recordable args record ∧ record.id ≠ 0 := by
  intro group groupMember record member
  obtain ⟨entry, entryMember, rfl⟩ := List.mem_map.mp groupMember
  obtain rfl := mem_singleton.mp member
  have bounds := sound.ids entry ((sdbFetchRows_perm args table.index).mem_iff.mp entryMember)
  have positive : 0 < entry.id := bounds.1
  exact ⟨(Operations.recordable_of_pos positive (lt_of_le_of_lt bounds.2 below)
    (args.appTool.fits _) (args.appTool.keyed _)).1, ne_of_gt positive⟩

theorem snapshot_rows (key : Bytes) :
    rowsOf args (snapshotGroups args table.index).flatten key = sdbGetRow table key := by
  have permuted := sdbFetchRows_perm args table.index
  obtain ⟨present, absent⟩ := rowsOf_entries (snapshot_entries sound)
  rw [snapshotGroups_flatten, sdbGetRow]
  cases found : sdbGetIndex table.index key with
  | none =>
    refine absent key fun member => ?_
    exact sdbGetIndex_eq_none.mp found ((permuted.map Entry.key).mem_iff.mp member)
  | some entry =>
    obtain ⟨member, own⟩ := sdbGetIndex_some found
    rw [<- own]
    exact present entry (permuted.mem_iff.mpr member)

theorem snapshot_tally : numOfDels args (snapshotGroups args table.index).flatten = 0 ∧
      (numOfInserts args (snapshotGroups args table.index).flatten : Int) = table.numOfRows := by
  obtain ⟨dels, inserts⟩ := tally_entries (snapshot_entries sound)
  rw [snapshotGroups_flatten]
  refine ⟨dels, ?_⟩
  rw [inserts, (sdbFetchRows_perm args table.index).length_eq, sound.count]

theorem snapshot_ids (some' : 0 < table.id) :
    (snapshotGroups args table.index).flatten.foldl (fun id record => max id |record.id|) 0 =
      table.id ↔ ∃ entry ∈ table.index, entry.id = table.id := by
  have permuted := sdbFetchRows_perm args table.index
  have general : ∀ (entries : List (Entry Obj)) (id : Int), id < table.id ->
      (∀ entry ∈ entries, 0 < entry.id ∧ entry.id ≤ table.id) ->
      ((entries.map (entryRecord args)).foldl (fun id record => max id |record.id|) id = table.id ↔
        ∃ entry ∈ entries, entry.id = table.id) := by
    intro entries
    induction entries using List.reverseRecOn with
    | nil =>
      intro id below _
      simp
      omega
    | append_singleton entries entry ih =>
      intro id below bounds
      have own := bounds entry (by simp)
      have front := ih id below fun other member => bounds other (mem_append_left _ member)
      have absolute : |(entryRecord args entry).id| = entry.id := abs_of_pos own.1
      have upper : (entries.map (entryRecord args)).foldl
          (fun id record => max id |record.id|) id ≤ table.id := by
        clear front ih
        induction entries using List.reverseRecOn with
        | nil => exact le_of_lt below
        | append_singleton entries other more =>
          have otherBounds := bounds other (by simp)
          have otherAbs : |(entryRecord args other).id| = other.id := abs_of_pos otherBounds.1
          rw [map_append, List.foldl_append, map_singleton, foldl_cons, foldl_nil, otherAbs]
          refine max_le (more fun entry member => bounds entry ?_) otherBounds.2
          simp only [mem_append, mem_singleton] at member ⊢
          tauto
      rw [map_append, List.foldl_append, map_singleton, foldl_cons, foldl_nil, absolute]
      constructor
      · intro same
        by_cases newest : entry.id = table.id
        · exact ⟨entry, by simp, newest⟩
        · have earlier := front.mp (by omega)
          obtain ⟨other, member, otherNewest⟩ := earlier
          exact ⟨other, mem_append_left _ member, otherNewest⟩
      · rintro ⟨other, member, newest⟩
        rcases mem_append.mp member with earlier | final
        · have reached := front.mpr ⟨other, earlier, newest⟩
          omega
        · rw [mem_singleton.mp final] at newest
          omega
  rw [snapshotGroups_flatten, general _ 0 some' fun entry member =>
    sound.ids entry (permuted.mem_iff.mp member)]
  exact ⟨fun ⟨entry, member, same⟩ => ⟨entry, permuted.mem_iff.mp member, same⟩,
    fun ⟨entry, member, same⟩ => ⟨entry, permuted.mem_iff.mpr member, same⟩⟩

end

end Snapshot

end Luomi.Sdb.Snapshot
