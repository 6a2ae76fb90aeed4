import Luomi.Vnode.CommitWindow

/-!
# Commits and imports open the right windows

The newest file tells where the windows are, and the files reach back from it.  This
lasts as long as the retention loop ends at the newest file: it counts the files down
without looking whether there are any.
-/

namespace Luomi.Vnode.CommitWindow

variable {pVnode next : SVnodeObj} {disk : Disk}

theorem tsMsPerDay_pos (precision : Precision) : 2 ≤ tsMsPerDay precision := by
  cases precision <;> decide

theorem delta_pos (days : 1 ≤ pVnode.daysPerFile) : 2 ≤ delta pVnode := by
  have msPerDay := tsMsPerDay_pos pVnode.precision
  unfold delta
  nlinarith

theorem tdiv_tdiv {time : Int} (nonneg : 0 ≤ time) :
    (time.tdiv (tsMsPerDay pVnode.precision)).tdiv pVnode.daysPerFile = time / delta pVnode := by
  have msPerDay := tsMsPerDay_pos pVnode.precision
  have quotient : 0 ≤ time / tsMsPerDay pVnode.precision :=
    Int.ediv_nonneg nonneg (by omega)
  rw [Int.tdiv_eq_ediv_of_nonneg nonneg, Int.tdiv_eq_ediv_of_nonneg quotient,
    Int.ediv_ediv_of_nonneg (by omega), delta, Int.mul_comm]

theorem filesBefore {days fileId key : Int} (positive : 0 < days) :
    ((fileId + 1) * days - 1 - key) / days = fileId - key / days := by
  have division := Int.emod_add_mul_ediv key days
  have lower := Int.emod_nonneg key (ne_of_gt positive)
  have upper := Int.emod_lt_of_pos key positive
  have shift : (fileId + 1) * days - 1 - key =
      days - 1 - key % days + days * (fileId - key / days) := by
    rw [<- division]
    have own : (key % days + days * (key / days)) % days = key % days := by
      rw [division]
    have quotient : (key % days + days * (key / days)) / days = key / days := by
      rw [division]
    rw [own, quotient]
    ring
  rw [shift, Int.add_mul_ediv_left _ _ (ne_of_gt positive),
    Int.ediv_eq_zero_of_lt (by omega) (by omega), Int.zero_add]

/-- The fields that opening and closing files leave alone. -/
structure SameKeys (pVnode next : SVnodeObj) : Prop where
  precision : next.precision = pVnode.precision
  daysPerFile : next.daysPerFile = pVnode.daysPerFile
  maxFiles : next.maxFiles = pVnode.maxFiles
  firstKey : next.firstKey = pVnode.firstKey
  lastKey : next.lastKey = pVnode.lastKey

theorem SameKeys.refl : SameKeys pVnode pVnode := ⟨rfl, rfl, rfl, rfl, rfl⟩

theorem SameKeys.trans {later : SVnodeObj} (first : SameKeys pVnode next)
    (second : SameKeys next later) : SameKeys pVnode later :=
  ⟨second.precision.trans first.precision, second.daysPerFile.trans first.daysPerFile,
    second.maxFiles.trans first.maxFiles, second.firstKey.trans first.firstKey,
    second.lastKey.trans first.lastKey⟩

theorem SameKeys.delta (same : SameKeys pVnode next) : delta next = CommitWindow.delta pVnode := by
  unfold CommitWindow.delta
  rw [same.precision, same.daysPerFile]

theorem vnodeCreateEmptyCompFile_eq (creates : Creates disk) {fileId : Int}
    (fresh : fileId ∉ pVnode.files) :
    vnodeCreateEmptyCompFile disk pVnode fileId =
      (true, { pVnode with files := insert fileId pVnode.files }) := by
  have created : ¬ disk.creates fileId = false := by
    rw [creates fileId]
    exact Bool.noConfusion
  unfold vnodeCreateEmptyCompFile
  rw [if_neg (not_or.mpr ⟨fresh, created⟩)]

theorem insert_Icc (first last : Int) (order : first ≤ last + 1) :
    insert (first - 1) (Finset.Icc first last) = Finset.Icc (first - 1) last := by
  ext fileId
  rw [Finset.mem_insert, Finset.mem_Icc, Finset.mem_Icc]
  omega

theorem createBackward_eq (creates : Creates disk) {last : Int} {filesAdded : Nat} :
    ∀ {fileId : Int} {pVnode : SVnodeObj}, fileId ≤ last ->
      pVnode.files = Finset.Icc (fileId + 1) last ->
      createBackward disk filesAdded fileId pVnode =
        (true, { pVnode with files := Finset.Icc (fileId - filesAdded + 1) last }) := by
  induction filesAdded with
  | zero =>
    intro fileId pVnode _ files
    rw [createBackward, Nat.cast_zero, Int.sub_zero, <- files]
  | succ filesAdded ih =>
    intro fileId pVnode order files
    have fresh : fileId ∉ pVnode.files := by
      rw [files, Finset.mem_Icc]
      omega
    have grown : insert fileId pVnode.files = Finset.Icc (fileId - 1 + 1) last := by
      have inserted := insert_Icc (fileId + 1) last (by omega)
      rw [files, Int.sub_add_cancel]
      rw [Int.add_sub_cancel] at inserted
      exact inserted
    rw [createBackward, vnodeCreateEmptyCompFile_eq creates fresh]
    simp only
    rw [ih (by omega) grown]
    have place : fileId - 1 - (filesAdded : Int) + 1 =
        fileId - ((filesAdded + 1 : Nat) : Int) + 1 := by
      push_cast
      ring
    rw [place]

theorem createFirst_idem (days : 1 ≤ pVnode.daysPerFile) (kept : FilesKept pVnode) :
    createFirst disk pVnode = pVnode := by
  have long := delta_pos days
  have created : pVnode.lastKeyOnFile ≠ 0 := by
    intro zero
    have product := kept.1
    rw [zero] at product
    have unit : delta pVnode ∣ 1 := ⟨pVnode.fileId + 1, by rw [Int.mul_comm]; omega⟩
    have small := Int.le_of_dvd Int.one_pos unit
    omega
  exact if_neg created

theorem createFirst_kept (creates : Creates disk) (days : 1 ≤ pVnode.daysPerFile)
    (right : FilesRight pVnode) :
    FilesKept (createFirst disk pVnode) ∧ SameKeys pVnode (createFirst disk pVnode) ∧
      (createFirst disk pVnode).commitFirstKey = pVnode.commitFirstKey := by
  rcases right with ⟨noKey, noFiles, empty⟩ | kept
  · have fresh : ∀ fileId, fileId ∉ pVnode.files := by
      intro fileId
      rw [empty]
      exact Finset.notMem_empty fileId
    have notZero : pVnode.daysPerFile ≠ 0 := by omega
    unfold createFirst
    simp only [if_pos noKey, if_neg notZero]
    rw [vnodeCreateEmptyCompFile_eq creates]
    · refine ⟨⟨?_, Int.one_nonneg, ?_⟩, ⟨rfl, rfl, rfl, rfl, rfl⟩, rfl⟩
      · simp only [delta]
        ring
      · simp only [empty]
        rw [Int.sub_add_cancel, Finset.Icc_self]
        rfl
    · exact fresh _
  · rw [createFirst_idem days kept]
    exact ⟨kept, SameKeys.refl, rfl⟩

def windowOf (pVnode : SVnodeObj) : Int :=
  if pVnode.commitFirstKey > pVnode.lastKeyOnFile then pVnode.fileId + 1
  else pVnode.commitFirstKey / delta pVnode

theorem setWindow_right {numOfFiles filesAdded : Int}
    (lastKeyOnFile : pVnode.lastKeyOnFile = (pVnode.fileId + 1) * delta pVnode - 1)
    (count : 0 ≤ pVnode.numOfFiles + filesAdded)
    (files : pVnode.files = Finset.Icc (pVnode.fileId - (pVnode.numOfFiles + filesAdded) + 1)
      pVnode.fileId)
    (nonneg : 0 ≤ numOfFiles) (below : numOfFiles < pVnode.numOfFiles + filesAdded) :
    WindowRight (setWindow pVnode numOfFiles filesAdded) := by
  have end_ : (setWindow pVnode numOfFiles filesAdded).commitLastKey =
      (pVnode.fileId - numOfFiles + 1) * delta pVnode - 1 := by
    simp only [setWindow, lastKeyOnFile, delta]
    ring
  refine ⟨⟨lastKeyOnFile, count, files⟩, ?_, end_, ?_, ?_⟩
  · have start : (setWindow pVnode numOfFiles filesAdded).commitFirstKey =
        (setWindow pVnode numOfFiles filesAdded).commitLastKey - delta pVnode + 1 := by
      simp only [setWindow, delta]
      ring
    have fileId : (setWindow pVnode numOfFiles filesAdded).commitFileId =
        pVnode.fileId - numOfFiles := rfl
    have same : delta (setWindow pVnode numOfFiles filesAdded) = delta pVnode := rfl
    rw [start, end_, fileId, same]
    ring
  · simp only [setWindow]
    omega
  · simp only [setWindow]
    omega

theorem openCommitFiles_kept (creates : Creates disk) (days : 1 ≤ pVnode.daysPerFile)
    (kept : FilesKept pVnode) (created : createFirst disk pVnode = pVnode) :
    ∃ next, vnodeOpenCommitFiles disk pVnode = (disk.opens, next) ∧ WindowRight next ∧
      SameKeys pVnode next ∧ next.commitFileId = windowOf pVnode := by
  have long := delta_pos days
  obtain ⟨lastKeyOnFile, nonneg, files⟩ := kept
  unfold vnodeOpenCommitFiles windowOf
  rw [created]
  by_cases beyond : pVnode.commitFirstKey > pVnode.lastKeyOnFile
  · have few : ¬ (-1 ≥ pVnode.numOfFiles) := by omega
    have negative : (-1 : Int) < 0 := by omega
    have fresh : pVnode.fileId + 1 ∉ pVnode.files := by
      rw [files, Finset.mem_Icc]
      omega
    have create : vnodeCreateEmptyCompFile disk { pVnode with fileId := pVnode.fileId + 1 }
        (pVnode.fileId + 1) = (true, { pVnode with
          fileId := pVnode.fileId + 1
          files := insert (pVnode.fileId + 1) pVnode.files }) :=
      vnodeCreateEmptyCompFile_eq creates fresh
    simp only [if_pos beyond, if_neg few, if_pos negative]
    rw [create]
    refine ⟨_, rfl, setWindow_right ?_ ?_ ?_ (Int.le_refl 0) ?_, ⟨rfl, rfl, rfl, rfl, rfl⟩,
      Int.sub_zero _⟩
    · simp only [lastKeyOnFile, delta]
      ring
    · simp only
      omega
    · simp only [files]
      ext fileId
      rw [Finset.mem_insert, Finset.mem_Icc, Finset.mem_Icc]
      omega
    · simp only
      omega
  · have within : 0 ≤ pVnode.lastKeyOnFile - pVnode.commitFirstKey := by omega
    have before : ((pVnode.lastKeyOnFile - pVnode.commitFirstKey).tdiv
        (tsMsPerDay pVnode.precision)).tdiv pVnode.daysPerFile =
          pVnode.fileId - pVnode.commitFirstKey / delta pVnode := by
      rw [tdiv_tdiv within, lastKeyOnFile]
      exact filesBefore (by omega)
    have back : 0 ≤ pVnode.fileId - pVnode.commitFirstKey / delta pVnode := by
      rw [<- before, tdiv_tdiv within]
      exact Int.ediv_nonneg within (by omega)
    simp only [if_neg beyond, before]
    by_cases older : pVnode.fileId - pVnode.commitFirstKey / delta pVnode ≥ pVnode.numOfFiles
    · have order : pVnode.fileId - pVnode.numOfFiles ≤ pVnode.fileId := by omega
      have added : ((pVnode.fileId - pVnode.commitFirstKey / delta pVnode -
          pVnode.numOfFiles + 1).toNat : Int) = pVnode.fileId -
            pVnode.commitFirstKey / delta pVnode - pVnode.numOfFiles + 1 :=
        Int.toNat_of_nonneg (by omega)
      rw [if_pos older, createBackward_eq creates order files]
      refine ⟨_, rfl, setWindow_right lastKeyOnFile ?_ ?_ back ?_, ⟨rfl, rfl, rfl, rfl, rfl⟩, ?_⟩
      · simp only
        omega
      · simp only [added]
        congr 1
        omega
      · simp only
        omega
      · simp only [setWindow]
        omega
    · have nonneg' : ¬ (pVnode.fileId - pVnode.commitFirstKey / delta pVnode < 0) := by omega
      rw [if_neg older, if_neg nonneg']
      refine ⟨_, rfl, setWindow_right lastKeyOnFile ?_ ?_ back ?_, ⟨rfl, rfl, rfl, rfl, rfl⟩, ?_⟩
      · omega
      · rw [Int.add_zero]
        exact files
      · omega
      · simp only [setWindow]
        omega

theorem openCommitFiles_right (creates : Creates disk) (days : 1 ≤ pVnode.daysPerFile)
    (right : FilesRight pVnode) :
    ∃ next, vnodeOpenCommitFiles disk pVnode = (disk.opens, next) ∧ WindowRight next ∧
      SameKeys pVnode next ∧ next.commitFileId = windowOf (createFirst disk pVnode) := by
  obtain ⟨kept, same, -⟩ := createFirst_kept creates days right
  rw [<- same.daysPerFile] at days
  have idem : createFirst disk (createFirst disk pVnode) = createFirst disk pVnode :=
    createFirst_idem days kept
  obtain ⟨next, opens, windowRight, sameNext, window⟩ :=
    openCommitFiles_kept creates days kept idem
  refine ⟨next, ?_, windowRight, same.trans sameNext, window⟩
  unfold vnodeOpenCommitFiles at opens ⊢
  rw [idem] at opens
  exact opens

/-- The retention loop takes the oldest files, and not more than there are. -/
theorem removeFiles_kept {limit : Int} {turns : Nat} :
    ∀ {fileId : Int} {pVnode : SVnodeObj}, FilesKept pVnode ->
      fileId = pVnode.fileId - pVnode.numOfFiles + 1 -> limit ≤ pVnode.fileId ->
      FilesKept (removeFiles limit turns fileId pVnode) ∧
        SameKeys pVnode (removeFiles limit turns fileId pVnode) ∧
        (removeFiles limit turns fileId pVnode).fileId = pVnode.fileId ∧
        (removeFiles limit turns fileId pVnode).commitLastKey = pVnode.commitLastKey := by
  induction turns with
  | zero => exact fun kept _ _ => ⟨kept, SameKeys.refl, rfl, rfl⟩
  | succ turns ih =>
    intro fileId pVnode kept oldest limited
    unfold removeFiles
    by_cases old : fileId ≤ limit
    · rw [if_pos old]
      obtain ⟨lastKeyOnFile, nonneg, files⟩ := kept
      have fewer : pVnode.files.erase fileId =
          Finset.Icc (pVnode.fileId - (pVnode.numOfFiles - 1) + 1) pVnode.fileId := by
        rw [files]
        ext other
        rw [Finset.mem_erase, Finset.mem_Icc, Finset.mem_Icc]
        omega
      have kept : FilesKept { pVnode with
          files := pVnode.files.erase fileId, numOfFiles := pVnode.numOfFiles - 1 } :=
        ⟨lastKeyOnFile, by simp only; omega, fewer⟩
      have oldestLater : fileId + 1 = pVnode.fileId - (pVnode.numOfFiles - 1) + 1 := by omega
      obtain ⟨keptLater, same, sameFile, sameKey⟩ := ih kept oldestLater limited
      have first : SameKeys pVnode { pVnode with
          files := pVnode.files.erase fileId, numOfFiles := pVnode.numOfFiles - 1 } :=
        ⟨rfl, rfl, rfl, rfl, rfl⟩
      exact ⟨keptLater, first.trans same, sameFile, sameKey⟩
    · rw [if_neg old]
      exact ⟨kept, SameKeys.refl, rfl, rfl⟩

theorem vnodeCloseCommitFiles_kept (kept : FilesKept pVnode) {clock : Int}
    (newest : NewestKept pVnode clock) : FilesKept (vnodeCloseCommitFiles clock pVnode) ∧
      SameKeys pVnode (vnodeCloseCommitFiles clock pVnode) ∧
      (vnodeCloseCommitFiles clock pVnode).fileId = pVnode.fileId ∧
      (vnodeCloseCommitFiles clock pVnode).commitLastKey = pVnode.commitLastKey :=
  removeFiles_kept kept rfl newest

structure LoopRight (rounds : List Round) (pVnode : SVnodeObj) (start : Int) : Prop where
  files : FilesRight (commitLoop rounds pVnode).after
  daysPerFile : (commitLoop rounds pVnode).after.daysPerFile = pVnode.daysPerFile
  windows : ∀ opened ∈ (commitLoop rounds pVnode).opened, WindowRight opened
  ids : (commitLoop rounds pVnode).opened.map SVnodeObj.commitFileId =
    (List.range (commitLoop rounds pVnode).opened.length).map fun turn : Nat => start + turn
  reason : ∀ window ∈ (commitLoop rounds pVnode).opened.map SVnodeObj.commitFileId,
    window = start ∨ ∃ round ∈ rounds, window ≤ round.lastKey / delta pVnode
  covers : (∀ round ∈ rounds, round.disk.opens = true) ->
    (commitLoop rounds pVnode).finished = true ->
    (commitLoop rounds pVnode).after.lastKey / delta pVnode <
      start + (commitLoop rounds pVnode).opened.length
  ends : (∀ round ∈ rounds, round.disk.opens = true) ->
    ∀ high, (∀ round ∈ rounds, round.lastKey / delta pVnode ≤ high) ->
      (high - start).toNat < rounds.length -> (commitLoop rounds pVnode).finished = true

theorem windowOf_next (days : 1 ≤ pVnode.daysPerFile) (kept : FilesKept pVnode) {window : Int}
    (place : pVnode.commitFirstKey = (window + 1) * delta pVnode)
    (below : window ≤ pVnode.fileId) : windowOf pVnode = window + 1 := by
  have long := delta_pos days
  have lastKeyOnFile := kept.1
  unfold windowOf
  split
  next beyond =>
    have newest : ¬ window + 1 ≤ pVnode.fileId := by
      intro older
      have bound := Int.mul_le_mul_of_nonneg_right older (c := delta pVnode) (by omega)
      have product : (pVnode.fileId + 1) * delta pVnode =
          pVnode.fileId * delta pVnode + delta pVnode := by ring
      omega
    omega
  next =>
    rw [place]
    exact Int.mul_ediv_cancel _ (by omega)

theorem range_shift (start : Int) (count : Nat) :
    (List.range (count + 1)).map (fun turn : Nat => start + turn) =
      start :: (List.range count).map fun turn : Nat => start + 1 + turn := by
  rw [List.range_succ_eq_map, List.map_cons, List.map_map, Nat.cast_zero, Int.add_zero]
  congr 1
  apply List.map_congr_left
  intro turn _
  simp only [Function.comp_apply, Nat.cast_succ]
  ring

theorem closeRound_right {opened : SVnodeObj} (days : 1 ≤ opened.daysPerFile)
    (right : WindowRight opened) {round : Round} (newest : NewestKept opened round.clock) :
    FilesKept (closeRound round opened) ∧
      (closeRound round opened).daysPerFile = opened.daysPerFile ∧
      (closeRound round opened).lastKey = round.lastKey ∧
      delta (closeRound round opened) = delta opened ∧
      ∀ disk, windowOf (createFirst disk (commitAgain (closeRound round opened))) =
        opened.commitFileId + 1 := by
  obtain ⟨kept, -, lastKey, -, below⟩ := right
  let renewed := { opened with firstKey := round.firstKey, lastKey := round.lastKey }
  have keptRenewed : FilesKept renewed := kept
  obtain ⟨keptClosed, same, sameFile, sameKey⟩ := vnodeCloseCommitFiles_kept keptRenewed newest
  have daysAgain : 1 ≤ (commitAgain (closeRound round opened)).daysPerFile := by
    have sameDays := same.daysPerFile
    rw [<- sameDays] at days
    exact days
  have keptAgain : FilesKept (commitAgain (closeRound round opened)) := keptClosed
  have deltaAgain : delta (commitAgain (closeRound round opened)) = delta opened := same.delta
  refine ⟨keptClosed, same.daysPerFile, same.lastKey, deltaAgain, ?_⟩
  intro disk
  rw [createFirst_idem daysAgain keptAgain]
  apply windowOf_next daysAgain keptAgain
  · have place : (commitAgain (closeRound round opened)).commitFirstKey =
        opened.commitLastKey + 1 := congrArg (fun key : Int => key + 1) sameKey
    rw [place, deltaAgain, lastKey]
    ring
  · have fileAgain : (commitAgain (closeRound round opened)).fileId = opened.fileId := sameFile
    rw [fileAgain]
    exact below

variable {rounds : List Round}

theorem commitLoop_right :
    ∀ {pVnode : SVnodeObj} {start : Int}, 1 ≤ pVnode.daysPerFile -> FilesRight pVnode ->
      (∀ disk, Creates disk -> windowOf (createFirst disk pVnode) = start) ->
      HeldLoop rounds pVnode -> LoopRight rounds pVnode start := by
  induction rounds with
  | nil =>
    intro pVnode start _ right _ _
    refine ⟨right, rfl, ?_, rfl, ?_, ?_, ?_⟩
    · exact fun _ member => nomatch member
    · exact fun _ member => nomatch member
    · exact fun _ finished => nomatch finished
    · exact fun _ _ _ few => absurd few (Nat.not_lt_zero _)
  | cons round rest ih =>
    intro pVnode start days right first held
    obtain ⟨creates, later⟩ := held
    obtain ⟨opened, opens, windowRight, same, window⟩ :=
      openCommitFiles_right creates days right
    rw [first round.disk creates] at window
    have sameDelta := same.delta
    cases answer : round.disk.opens with
    | false =>
      rw [answer] at opens
      have loop : commitLoop (round :: rest) pVnode = ⟨[], opened, true⟩ := by
        rw [commitLoop, opens]
      have refused : ¬ ∀ other ∈ round :: rest, other.disk.opens = true := by
        intro all
        rw [all round List.mem_cons_self] at answer
        cases answer
      refine ⟨?_, ?_, ?_, ?_, ?_, fun all => absurd all refused,
        fun all => absurd all refused⟩ <;> rw [loop]
      · exact Or.inr windowRight.1
      · exact same.daysPerFile
      · exact fun _ member => nomatch member
      · rfl
      · exact fun _ member => nomatch member
    | true =>
      rw [answer] at opens
      obtain ⟨newest, heldRest⟩ := later opened opens
      rw [<- same.daysPerFile] at days
      obtain ⟨kept, sameDays, lastKey, sameClosed, nextWindow⟩ :=
        closeRound_right days windowRight newest
      have daysClosed := days
      rw [<- sameDays] at daysClosed
      have ends : opened.commitLastKey = (start + 1) * delta pVnode - 1 := by
        rw [windowRight.2.2.1, window, sameDelta]
      have long := delta_pos days
      rw [sameDelta] at long
      have product : (start + 1) * delta pVnode = start * delta pVnode + delta pVnode := by
        ring
      by_cases again : round.lastKey > opened.commitLastKey
      · have goesOn : start + 1 ≤ round.lastKey / delta pVnode := by
          rw [Int.le_ediv_iff_mul_le (by omega)]
          omega
        have deltaAgain : delta (commitAgain (closeRound round opened)) = delta pVnode :=
          sameClosed.trans sameDelta
        have behind : LoopRight rest (commitAgain (closeRound round opened))
            (opened.commitFileId + 1) :=
          ih daysClosed (Or.inr kept) (fun disk _ => nextWindow disk) heldRest
        rw [window] at behind
        have loop : commitLoop (round :: rest) pVnode =
            { commitLoop rest (commitAgain (closeRound round opened)) with
              opened := opened ::
                (commitLoop rest (commitAgain (closeRound round opened))).opened } := by
          rw [commitLoop, opens]
          exact if_pos again
        refine ⟨?_, ?_, ?_, ?_, ?_, ?_, ?_⟩ <;> rw [loop]
        · exact behind.files
        · exact behind.daysPerFile.trans (sameDays.trans same.daysPerFile)
        · intro other member
          rcases List.mem_cons.mp member with rfl | inRest
          · exact windowRight
          · exact behind.windows other inRest
        · rw [List.map_cons, List.length_cons, range_shift, window, behind.ids]
        · intro other member
          rw [List.map_cons] at member
          rcases List.mem_cons.mp member with isFirst | inRest
          · exact Or.inl (isFirst.trans window)
          · refine Or.inr ?_
            rcases behind.reason other inRest with isNext | ⟨reader, inRounds, bound⟩
            · exact ⟨round, List.mem_cons_self, isNext.trans_le goesOn⟩
            · rw [deltaAgain] at bound
              exact ⟨reader, List.mem_cons_of_mem _ inRounds, bound⟩
        · intro all finished
          have bound := behind.covers (fun other member =>
            all other (List.mem_cons_of_mem _ member)) finished
          rw [deltaAgain] at bound
          simp only [List.length_cons, Nat.cast_succ]
          omega
        · intro all high bounded few
          refine behind.ends (fun other member =>
            all other (List.mem_cons_of_mem _ member)) high ?_ ?_
          · intro other member
            rw [deltaAgain]
            exact bounded other (List.mem_cons_of_mem _ member)
          · have bound := bounded round List.mem_cons_self
            rw [List.length_cons] at few
            omega
      · have loop : commitLoop (round :: rest) pVnode =
            ⟨[opened], closeRound round opened, true⟩ := by
          rw [commitLoop, opens]
          exact if_neg again
        refine ⟨?_, ?_, ?_, ?_, ?_, ?_, ?_⟩ <;> rw [loop]
        · exact Or.inr kept
        · exact sameDays.trans same.daysPerFile
        · exact fun _ member => List.mem_singleton.mp member ▸ windowRight
        · rw [List.map_singleton, window, List.length_singleton, range_shift]
          rfl
        · intro other member
          exact Or.inl ((List.mem_singleton.mp member).trans window)
        · intro _ _
          rw [lastKey, List.length_singleton, Nat.cast_one]
          apply Int.ediv_lt_of_lt_mul (by omega)
          omega
        · exact fun _ _ _ _ => rfl

theorem createFirst_unique {other : Disk} (creates : Creates disk) (also : Creates other)
    (days : 1 ≤ pVnode.daysPerFile) (right : FilesRight pVnode) :
    createFirst disk pVnode = createFirst other pVnode := by
  rcases right with ⟨noKey, -, empty⟩ | kept
  · have fresh : ∀ fileId, fileId ∉ pVnode.files := by
      intro fileId
      rw [empty]
      exact Finset.notMem_empty fileId
    unfold createFirst
    simp only [if_pos noKey]
    rw [vnodeCreateEmptyCompFile_eq creates, vnodeCreateEmptyCompFile_eq also]
    · exact fresh _
    · exact fresh _
  · rw [createFirst_idem days kept, createFirst_idem days kept]

theorem windowOf_le (days : 1 ≤ pVnode.daysPerFile) (kept : FilesKept pVnode) :
    windowOf pVnode ≤ pVnode.commitFirstKey / delta pVnode := by
  have long := delta_pos days
  have lastKeyOnFile := kept.1
  unfold windowOf
  split
  next beyond =>
    rw [Int.le_ediv_iff_mul_le (by omega)]
    omega
  next => exact Int.le_refl _

theorem count_range_shift {start window : Int} {count : Nat} (lower : start ≤ window)
    (upper : window < start + count) :
    ((List.range count).map fun turn : Nat => start + turn).count window = 1 := by
  apply List.count_eq_one_of_mem
  · refine List.nodup_range.map ?_
    intro first second same
    simp only [Int.add_right_inj] at same
    exact Int.natCast_inj.mp same
  · refine List.mem_map.mpr ⟨(window - start).toNat, List.mem_range.mpr (by omega), ?_⟩
    rw [Int.toNat_of_nonneg (by omega)]
    ring

theorem commit_right (days : 1 ≤ pVnode.daysPerFile) (right : FilesRight pVnode) (held : Held pVnode (.commit rounds)) :
    StepRight pVnode (.commit rounds) ∧
      (fileStep pVnode (.commit rounds)).daysPerFile = pVnode.daysPerFile := by
  let began : SVnodeObj :=
    { pVnode with commitFirstKey := pVnode.firstKey, firstKey := pVnode.lastKey + 1 }
  have heldBegan : HeldLoop rounds began := held
  have daysBegan : 1 ≤ began.daysPerFile := days
  have rightBegan : FilesRight began := right
  have willing : Creates ⟨fun _ => true, true⟩ := fun _ => rfl
  obtain ⟨kept, same, sameKey⟩ := createFirst_kept willing daysBegan rightBegan
  have loop := commitLoop_right daysBegan rightBegan (fun disk creates => congrArg windowOf
    (createFirst_unique creates willing daysBegan rightBegan)) heldBegan
  by_cases noKey : pVnode.lastKey = 0
  · have commit : vnodeCommitMultiToFile rounds pVnode = ⟨[], pVnode, true⟩ := if_pos noKey
    refine ⟨⟨?_, ?_, fun some => absurd noKey some⟩, ?_⟩
    · simp only [fileStep, commit]
      exact right
    · rw [commit]
      exact fun _ member => nomatch member
    · simp only [fileStep, commit]
  · have commit : vnodeCommitMultiToFile rounds pVnode = commitLoop rounds began :=
      if_neg noKey
    refine ⟨⟨?_, ?_, ?_⟩, ?_⟩
    · simp only [fileStep, commit]
      exact loop.files
    · rw [commit]
      exact loop.windows
    · unfold WindowsRight
      simp only [commit]
      intro _
      refine ⟨_, ?_, loop.ids, loop.reason, fun all => ⟨?_, loop.ends all⟩⟩
      · rw [<- same.daysPerFile] at daysBegan
        have first := windowOf_le daysBegan kept
        rw [sameKey, same.delta] at first
        exact first
      · intro finished window lower upper
        rw [loop.ids]
        exact count_range_shift lower (upper.trans_lt (loop.covers all finished))
    · simp only [fileStep, commit]
      exact loop.daysPerFile

theorem step_right (days : 1 ≤ pVnode.daysPerFile) (right : FilesRight pVnode)
    {event : FileEvent} (held : Held pVnode event) :
    StepRight pVnode event ∧ (fileStep pVnode event).daysPerFile = pVnode.daysPerFile := by
  cases event with
  | keys firstKey lastKey => exact ⟨⟨right, trivial⟩, rfl⟩
  | openForImport disk firstKey =>
    let began : SVnodeObj := { pVnode with commitFirstKey := firstKey }
    have daysBegan : 1 ≤ began.daysPerFile := days
    obtain ⟨next, opens, windowRight, same, -⟩ := openCommitFiles_right held daysBegan right
    have after : fileStep pVnode (.openForImport disk firstKey) = next :=
      congrArg Prod.snd opens
    refine ⟨⟨?_, ?_⟩, ?_⟩
    · rw [after]
      exact Or.inr windowRight.1
    · intro other isOther
      exact (Prod.mk.inj (opens.symm.trans isOther)).2 ▸ windowRight
    · rw [after]
      exact same.daysPerFile
  | closeForImport clock =>
    have newest : fileOf pVnode clock - pVnode.maxFiles ≤ pVnode.fileId := held
    rcases right with nothing | kept
    · have turns : (fileOf pVnode clock - pVnode.maxFiles -
          (pVnode.fileId - pVnode.numOfFiles + 1) + 1).toNat = 0 := by
        omega
      have after : fileStep pVnode (.closeForImport clock) = pVnode := by
        simp only [fileStep, vnodeCloseCommitFiles, turns, removeFiles]
      refine ⟨⟨?_, trivial⟩, ?_⟩
      · rw [after]
        exact Or.inl nothing
      · rw [after]
    · obtain ⟨keptClosed, same, -⟩ := vnodeCloseCommitFiles_kept kept newest
      exact ⟨⟨Or.inr keptClosed, trivial⟩, same.daysPerFile⟩
  | commit rounds => exact commit_right days right held

theorem run_right {events : List FileEvent} :
    ∀ {pVnode : SVnodeObj}, 1 ≤ pVnode.daysPerFile -> FilesRight pVnode ->
      HeldRun pVnode events -> RunRight pVnode events := by
  induction events with
  | nil => exact fun _ _ _ => trivial
  | cons event rest ih =>
    intro pVnode days right held
    obtain ⟨stepRight, sameDays⟩ := step_right days right held.1
    rw [<- sameDays] at days
    exact ⟨stepRight, ih days stepRight.1 held.2⟩

/-- As long as files can be created and are closed before the newest of them is too old,
the windows and the files of a vnode are right. -/
theorem heldRun_windowsRight (precision : Precision) (daysPerFile maxFiles firstKey
    lastKey : Int) (days : 1 ≤ daysPerFile) (events : List FileEvent)
    (held : HeldRun (newVnode precision daysPerFile maxFiles firstKey lastKey) events) :
    RunRight (newVnode precision daysPerFile maxFiles firstKey lastKey) events :=
  run_right days (Or.inl ⟨rfl, rfl, rfl⟩) held

def noonOf (day : Int) : Int := day * 86400000 + 43200000

def roundAt (day : Int) : Round := ⟨⟨fun _ => true, true⟩, noonOf day, noonOf day, noonOf day⟩

/-- Rows of three days in a row. -/
theorem threeDays_right : RunRight (newVnode .milli 1 2 (noonOf 18000) (noonOf 18002))
      [.commit [roundAt 18002, roundAt 18002, roundAt 18002]] := by
  apply heldRun_windowsRight _ _ _ _ _ (by decide)
  refine ⟨⟨fun _ => rfl, ?_⟩, trivial⟩
  intro first isFirst
  obtain rfl := congrArg Prod.snd isFirst
  refine ⟨by decide +kernel, fun _ => rfl, ?_⟩
  intro second isSecond
  obtain rfl := congrArg Prod.snd isSecond
  refine ⟨by decide +kernel, fun _ => rfl, ?_⟩
  intro third isThird
  obtain rfl := congrArg Prod.snd isThird
  exact ⟨by decide +kernel, trivial⟩

/-- Two days of rows are kept.  After five days without any, the loop counts the files
below zero, and the commit opens one window over and over. -/
theorem idleDays_notRight : ¬ RunRight (newVnode .milli 1 2 (noonOf 18000) (noonOf 18000))
      [.commit [roundAt 18000], .keys (noonOf 18005) (noonOf 18005),
        .commit (List.replicate 5 (roundAt 18005))] := by
  rintro ⟨-, -, ⟨files, -⟩, -⟩
  have negative : ([.commit [roundAt 18000], .keys (noonOf 18005) (noonOf 18005),
      .commit (List.replicate 5 (roundAt 18005))].foldl fileStep
        (newVnode .milli 1 2 (noonOf 18000) (noonOf 18000))).numOfFiles < 0 := by
    decide +kernel
  rcases files with ⟨-, zero, -⟩ | ⟨-, nonneg, -⟩
  · exact absurd zero (ne_of_lt negative)
  · exact absurd nonneg (not_le_of_gt negative)

end Luomi.Vnode.CommitWindow
