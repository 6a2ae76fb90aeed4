import Luomi.Vnode.CommitQuery

/-!
# The blocks a commit writes for one meter

The last block of a meter is taken off its list, and the rows of the window follow it in
blocks of the size of the file.  Only the final one of these can be short enough for the
last file.
-/

namespace Luomi.Vnode.CommitBlocks

open CommitFile CommitQuery
open Function (update update_of_ne update_self)
open Option (bind_eq_bind bind_eq_some_iff bind_some pure_def some.inj some.injEq)

section Blocks

variable {Row : Type} {settings : Settings Row} {compression : Int} {pObj : SMeterObj Row}
  {pInfo : SCacheInfo Row}

def writeChunks (settings : Settings Row) (compression : Int) (pObj : SMeterObj Row) :
    List (List Row) -> OpenFiles Row -> List SCompBlock × OpenFiles Row
  | [], files => ([], files)
  | rows :: chunks, files =>
    let (block, files) := vnodeWriteBlockToFile settings compression pObj rows files
    let (blocks, files) := writeChunks settings compression pObj chunks files
    (block :: blocks, files)

section

variable (settings : Settings Row) (compression : Int) (pObj : SMeterObj Row)
  (chunks : List (List Row)) (files : OpenFiles Row)

def chunkBlocks : List SCompBlock :=
  (writeChunks settings compression pObj chunks files).1

def chunkFiles : OpenFiles Row :=
  (writeChunks settings compression pObj chunks files).2

end

theorem chunkBlocks_cons (rows : List Row) (chunks : List (List Row)) (files : OpenFiles Row) :
    chunkBlocks settings compression pObj (rows :: chunks) files =
      (vnodeWriteBlockToFile settings compression pObj rows files).1 ::
        chunkBlocks settings compression pObj chunks
          (vnodeWriteBlockToFile settings compression pObj rows files).2 := rfl

theorem vnodeWriteBlockToFile_block (settings : Settings Row) (compression : Int)
    (pObj : SMeterObj Row) (rows : List Row) (files : OpenFiles Row) :
    (vnodeWriteBlockToFile settings compression pObj rows files).1.numOfPoints = rows.length ∧
      ((vnodeWriteBlockToFile settings compression pObj rows files).1.last = true ↔
        Few settings pObj rows.length) := by
  unfold vnodeWriteBlockToFile
  by_cases few : Few settings pObj rows.length
  · simp only [if_pos few]
    cases files.tfd with
    | none => exact ⟨rfl, iff_of_true rfl few⟩
    | some tfd => exact ⟨rfl, iff_of_true rfl few⟩
  · simp only [if_neg few]
    exact ⟨trivial, iff_of_false Bool.false_ne_true few⟩

theorem length_chunkBlocks (chunks : List (List Row)) (files : OpenFiles Row) :
    (chunkBlocks settings compression pObj chunks files).length = chunks.length := by
  induction chunks generalizing files with
  | nil => rfl
  | cons rows chunks ih => exact congrArg (· + 1) (ih _)

theorem numOfPoints_chunkBlocks {chunks : List (List Row)} (some' : ∀ rows ∈ chunks, rows ≠ [])
    (files : OpenFiles Row) :
    ∀ block ∈ chunkBlocks settings compression pObj chunks files, 0 < block.numOfPoints := by
  induction chunks generalizing files with
  | nil => simp [chunkBlocks, writeChunks]
  | cons rows chunks ih =>
    intro block member
    rw [chunkBlocks_cons] at member
    rcases List.mem_cons.mp member with rfl | later
    · rw [(vnodeWriteBlockToFile_block settings compression pObj rows files).1]
      have nonempty := List.length_pos_iff.mpr (some' rows List.mem_cons_self)
      omega
    · exact ih (fun rows member => some' rows (List.mem_cons_of_mem _ member)) _ block later

structure Written (settings : Settings Row) (compression : Int) (pObj : SMeterObj Row)
    (pInfo : SCacheInfo Row) (ekey : Int) (lastRows : List Row) (writer written : Writer Row)
    (chunks : List (List Row)) (rows : List Row) : Prop where
  files : written.files = chunkFiles settings compression pObj chunks writer.files
  pMeter : written.pMeter = { writer.pMeter with
    last := ((chunkBlocks settings compression pObj chunks writer.files).getLast?.map
      (·.last)).getD writer.pMeter.last
    newBlocks := writer.pMeter.newBlocks ++
      chunkBlocks settings compression pObj chunks writer.files
    committedPoints := writer.pMeter.committedPoints + rows.length }
  flatten : chunks.flatten = lastRows ++ rows
  nonempty : ∀ chunk ∈ chunks, chunk ≠ []
  full : ∀ chunk ∈ chunks.dropLast, pObj.pointsPerFileBlock ≤ chunk.length
  reads : Read settings pInfo ekey writer.pQuery rows written.pQuery
  isOver : written.pQuery.isOver = true

theorem distance_lt_turns (pInfo : SCacheInfo Row) (pQuery : SQuery) :
    distance pInfo pQuery < turns pInfo := by
  have within := (left_suffix pInfo.blocks pQuery.slot pQuery.pos).sublist.length_le
  unfold distance turns
  omega

variable {lastRows : List Row} {writer : Writer Row}

theorem writeBlock_writes {ekey : Int} {rows : List Row}
    {next : SQuery} (reads : Read settings pInfo ekey writer.pQuery rows next)
    (some' : lastRows ++ rows ≠ []) (isOver : next.isOver = true) :
    Written settings compression pObj pInfo ekey lastRows writer
      (writeBlock settings compression pObj lastRows.length (lastRows ++ rows) next writer)
      [lastRows ++ rows] rows where
  files := rfl
  pMeter := by
    simp [writeBlock, chunkBlocks, writeChunks]
  flatten := List.flatten_singleton
  nonempty := by simpa using some'
  full := by simp
  reads := reads
  isOver := isOver

theorem Written.cons {ekey : Int} {lastRows rows more : List Row} {writer written : Writer Row}
    {next : SQuery} {chunks : List (List Row)}
    (reads : Read settings pInfo ekey writer.pQuery rows next)
    (some' : lastRows ++ rows ≠ []) (full : pObj.pointsPerFileBlock ≤ (lastRows ++ rows).length)
    (later : Written settings compression pObj pInfo ekey []
      (writeBlock settings compression pObj lastRows.length (lastRows ++ rows) next writer)
      written chunks more) : Written settings compression pObj pInfo ekey lastRows writer written
      ((lastRows ++ rows) :: chunks) (rows ++ more) where
  files := later.files
  pMeter := by
    rw [later.pMeter]
    simp [writeBlock, chunkBlocks_cons, List.getLast?_cons, Nat.add_assoc]
  flatten := by
    rw [List.flatten_cons, later.flatten, List.nil_append, List.append_assoc]
  nonempty := by
    intro chunk member
    rcases List.mem_cons.mp member with rfl | behind
    · exact some'
    · exact later.nonempty chunk behind
  full := by
    intro chunk member
    cases chunks with
    | nil => simp at member
    | cons chunk' chunks =>
      rcases List.mem_cons.mp member with rfl | behind
      · exact full
      · exact later.full chunk behind
  reads := reads.trans later.reads
  isOver := later.isOver

theorem commitBlocks_writes (fits : CacheFits settings pObj pInfo)
    (room : 0 < pObj.pointsPerFileBlock) (compression ekey : Int) {fuel : Nat}
    (lastRows : List Row) (writer : Writer Row) (placed : Placed pInfo.blocks writer.pQuery.slot
      writer.pQuery.pos)
    (going : writer.pQuery.isOver = false) (notMet : writer.pQuery.keyIsMet = false)
    (enough : (left pInfo.blocks writer.pQuery.slot writer.pQuery.pos).length +
      min lastRows.length 1 < fuel) : ∃ written chunks rows,
      commitBlocks settings compression pObj pInfo ekey fuel lastRows writer = some written ∧
        Written settings compression pObj pInfo ekey lastRows writer written chunks rows := by
  induction fuel generalizing lastRows writer with
  | zero => exact absurd enough (Nat.not_lt_zero _)
  | succ fuel ih =>
    obtain ⟨rows, next, run, reads, -, full⟩ := fillBlock_reads fits ekey
      lastRows placed going notMet (distance_lt_turns pInfo writer.pQuery)
    unfold commitBlocks
    rw [if_neg (by simp [going])]
    simp only [run, bind_eq_bind, bind_some, pure_def]
    by_cases empty : lastRows ++ rows = []
    · rw [if_pos empty]
      obtain ⟨rfl, rfl⟩ := List.append_eq_nil_iff.mp empty
      refine ⟨_, [], [], rfl, rfl, ?_, rfl, by simp, by simp, reads, ?_⟩
      · simp [chunkBlocks, writeChunks]
      · by_contra going'
        have none' := full (Bool.eq_false_iff.mpr going')
        rw [empty] at none'
        exact absurd (room.trans_le none') (Nat.lt_irrefl 0)
    rw [if_neg empty]
    by_cases stop : (lastRows ++ rows).length < pObj.pointsPerFileBlock ∨ next.keyIsMet = true
    · rw [if_pos stop]
      refine ⟨_, _, rows, rfl, writeBlock_writes reads empty ?_⟩
      rcases stop with short | met
      · by_contra going'
        exact absurd (full (Bool.eq_false_iff.mpr going')) (by omega)
      · exact reads.met met
    rw [if_neg stop]
    rw [not_or, not_lt] at stop
    have shorter := congrArg List.length reads.split
    have nonempty := List.length_pos_iff.mpr empty
    simp only [List.length_append] at shorter nonempty
    cases isOver : next.isOver with
    | true =>
      refine ⟨_, _, rows, ?_, writeBlock_writes reads empty isOver⟩
      cases fuel with
      | zero => exact absurd enough (by omega)
      | succ fuel => exact if_pos isOver
    | false =>
      obtain ⟨written, chunks, more, run', later⟩ := ih []
        (writeBlock settings compression pObj lastRows.length (lastRows ++ rows) next writer)
        reads.placed isOver (Bool.eq_false_iff.mpr stop.2) (by
            simp only [writeBlock, List.length_nil]
            omega)
      exact ⟨written, _, _, run', later.cons reads empty stop.1⟩

def Copied (pObj : SMeterObj Row) (pMeter : SMeterInfo) : Prop :=
  pMeter.last = true ∧ pMeter.lastBlock.sversion ≠ pObj.sversion

def Merged (pObj : SMeterObj Row) (pMeter : SMeterInfo) : Prop :=
  pMeter.last = true ∧ pMeter.lastBlock.sversion = pObj.sversion

instance (pObj : SMeterObj Row) (pMeter : SMeterInfo) : Decidable (Copied pObj pMeter) :=
  inferInstanceAs (Decidable (_ ∧ _))

section

variable (pObj : SMeterObj Row) (pMeter : SMeterInfo) (files : OpenFiles Row)

def copiedBlocks : List SCompBlock :=
  if Copied pObj pMeter then
    [{ pMeter.lastBlock with last := false, offset := files.dfd.size }]
  else []

def copiedFiles : OpenFiles Row :=
  if Copied pObj pMeter then
    { files with
      dfd := files.dfd.append (files.lfd.blocks pMeter.lastBlock.offset) pMeter.lastBlock.len }
  else files

end

variable {pMeter : SMeterInfo} {window : Window} {turn turn' : Turn Row}

theorem copiedBlocks_pos (copied : Copied pObj pMeter) (files : OpenFiles Row) :
    copiedBlocks pObj pMeter files =
      [{ pMeter.lastBlock with last := false, offset := files.dfd.size }] :=
  if_pos copied

theorem copiedBlocks_neg (notCopied : ¬ Copied pObj pMeter)
    (files : OpenFiles Row) : copiedBlocks pObj pMeter files = [] :=
  if_neg notCopied

structure Taken (pObj : SMeterObj Row) (writer taken : Writer Row) (lastRows : List Row) :
    Prop where
  files : taken.files = copiedFiles pObj writer.pMeter writer.files
  pMeter : taken.pMeter = { writer.pMeter with
    changed := writer.pMeter.last || writer.pMeter.changed
    last := false
    oldNumOfBlocks := writer.pMeter.oldNumOfBlocks - if writer.pMeter.last then 1 else 0
    newBlocks := writer.pMeter.newBlocks ++ copiedBlocks pObj writer.pMeter writer.files }
  pQuery : taken.pQuery = { writer.pQuery with isOver := taken.pQuery.isOver }
  isOver : taken.pQuery.isOver = true ↔
    writer.pQuery.isOver = true ∧ ¬ Merged pObj writer.pMeter
  merged : Merged pObj writer.pMeter ->
    readRows writer.files.lfd writer.pMeter.lastBlock = some lastRows
  notMerged : ¬ Merged pObj writer.pMeter -> lastRows = []

theorem takeLastBlock_taken {taken : Writer Row}
    (run : takeLastBlock pObj writer = some (lastRows, taken)) :
    Taken pObj writer taken lastRows := by
  unfold takeLastBlock at run
  cases last : writer.pMeter.last with
  | false =>
    simp only [last, Bool.false_eq_true, if_false, some.injEq, Prod.mk.injEq] at run
    obtain ⟨rfl, rfl⟩ := run
    have notCopied : ¬ Copied pObj writer.pMeter := by
      simp [Copied, last]
    have notMerged : ¬ Merged pObj writer.pMeter := by
      simp [Merged, last]
    refine ⟨(if_neg notCopied).symm, ?_, rfl, ?_, fun merged => absurd merged notMerged,
      fun _ => rfl⟩
    · rw [copiedBlocks_neg notCopied, List.append_nil]
      simp only [last, Bool.false_or, Bool.false_eq_true, if_false, sub_zero]
      rw [<- last]
    · simp [notMerged]
  | true =>
    simp only [last, if_true] at run
    by_cases old : writer.pMeter.lastBlock.sversion ≠ pObj.sversion
    · rw [if_pos old, some.injEq, Prod.mk.injEq] at run
      obtain ⟨rfl, rfl⟩ := run
      have copied : Copied pObj writer.pMeter := ⟨last, old⟩
      have notMerged : ¬ Merged pObj writer.pMeter := fun merged => old merged.2
      refine ⟨(if_pos copied).symm, ?_, rfl, ?_, fun merged => absurd merged notMerged,
        fun _ => rfl⟩
      · rw [copiedBlocks_pos copied]
        simp [last]
      · simp [notMerged]
    · rw [if_neg old] at run
      have notCopied : ¬ Copied pObj writer.pMeter := fun copied => old copied.2
      have merged : Merged pObj writer.pMeter := ⟨last, not_not.mp old⟩
      cases read : readRows writer.files.lfd writer.pMeter.lastBlock with
      | none => simp [read] at run
      | some rows =>
        simp only [read, bind_eq_bind, bind_some, pure_def, some.injEq, Prod.mk.injEq] at run
        obtain ⟨rfl, rfl⟩ := run
        refine ⟨(if_neg notCopied).symm, ?_, rfl, ?_, fun _ => read,
          fun notMerged => absurd merged notMerged⟩
        · rw [copiedBlocks_neg notCopied, List.append_nil]
          simp [last]
        · simp [merged]

/-- The first row that is not committed is not before the window. -/
def Opens (settings : Settings Row) (pInfo : SCacheInfo Row) (skey : Int) : Prop :=
  ∃ row ∈ (uncommitted pInfo).head?, skey ≤ settings.key row

/-- The turn of a meter with a cache: the rows that are read, the chunks they are written in
behind the rows of the last block, and the query at the end. -/
structure MeterTurn (settings : Settings Row) (compression : Int) (window : Window)
    (pObj : SMeterObj Row) (pInfo : SCacheInfo Row) (files files' : OpenFiles Row)
    (pMeter pMeter' : SMeterInfo) where
  lastRows : List Row
  rows : List Row
  chunks : List (List Row)
  next : SQuery
  merged : Merged pObj pMeter -> readRows files.lfd pMeter.lastBlock = some lastRows
  notMerged : ¬ Merged pObj pMeter -> lastRows = []
  placed : Placed pInfo.blocks next.slot next.pos
  split : rows ++ left pInfo.blocks next.slot next.pos = uncommitted pInfo
  upTo : ∀ row ∈ rows, settings.key row ≤ window.commitLastKey
  beyond : Opens settings pInfo window.commitFirstKey ∨ Merged pObj pMeter ->
    ∀ row ∈ left pInfo.blocks next.slot next.pos, window.commitLastKey < settings.key row
  idle : ¬ (Opens settings pInfo window.commitFirstKey ∨ Merged pObj pMeter) -> chunks = []
  flatten : chunks.flatten = lastRows ++ rows
  nonempty : ∀ chunk ∈ chunks, chunk ≠ []
  full : ∀ chunk ∈ chunks.dropLast, pObj.pointsPerFileBlock ≤ chunk.length
  files_eq : files' = chunkFiles settings compression pObj chunks (copiedFiles pObj pMeter files)
  pMeter_eq : pMeter' = { pMeter with
    changed := pMeter.last || pMeter.changed
    last := ((chunkBlocks settings compression pObj chunks
      (copiedFiles pObj pMeter files)).getLast?.map (·.last)).getD false
    oldNumOfBlocks := pMeter.oldNumOfBlocks - if pMeter.last then 1 else 0
    newBlocks := pMeter.newBlocks ++ copiedBlocks pObj pMeter files ++
      chunkBlocks settings compression pObj chunks (copiedFiles pObj pMeter files)
    committedPoints := pMeter.committedPoints + rows.length
    commitSlot := if 0 < pMeter.committedPoints + rows.length then next.slot
      else pMeter.commitSlot
    commitPos := if 0 < pMeter.committedPoints + rows.length then next.pos
      else pMeter.commitPos }

section Turn

variable {window : Window} {files files' : OpenFiles Row} {pMeter pMeter' : SMeterInfo}

theorem MeterTurn.newBlocks_eq
    (turn : MeterTurn settings compression window pObj pInfo files files' pMeter pMeter') :
    pMeter'.newBlocks = pMeter.newBlocks ++ copiedBlocks pObj pMeter files ++
      chunkBlocks settings compression pObj turn.chunks (copiedFiles pObj pMeter files) :=
  congrArg SMeterInfo.newBlocks turn.pMeter_eq

theorem MeterTurn.oldNumOfBlocks_eq
    (turn : MeterTurn settings compression window pObj pInfo files files' pMeter pMeter') :
    pMeter'.oldNumOfBlocks = pMeter.oldNumOfBlocks - if pMeter.last then 1 else 0 :=
  congrArg SMeterInfo.oldNumOfBlocks turn.pMeter_eq

theorem MeterTurn.committed
    (turn : MeterTurn settings compression window pObj pInfo files files' pMeter pMeter')
    (none' : pMeter.committedPoints = 0) :
    pMeter'.committedPoints = turn.rows.length ∧ (0 < turn.rows.length ->
      pMeter'.commitSlot = turn.next.slot ∧ pMeter'.commitPos = turn.next.pos) := by
  have points : pMeter'.committedPoints = pMeter.committedPoints + turn.rows.length :=
    (congrArg SMeterInfo.committedPoints turn.pMeter_eq :)
  have slot := congrArg SMeterInfo.commitSlot turn.pMeter_eq
  have pos := congrArg SMeterInfo.commitPos turn.pMeter_eq
  dsimp only at slot pos
  rw [none', Nat.zero_add] at points slot pos
  refine ⟨points, fun some' => ?_⟩
  rw [if_pos some'] at slot pos
  exact ⟨slot, pos⟩

end Turn

structure MeterFits (settings : Settings Row) (pObj : SMeterObj Row) : Prop where
  room : 0 < pObj.pointsPerFileBlock
  cache : ∀ pInfo, pObj.pCache = some pInfo -> CacheFits settings pObj pInfo

theorem noteCommit (pMeter : SMeterInfo) (slot pos : Nat) :
    (if 0 < pMeter.committedPoints then { pMeter with commitSlot := slot, commitPos := pos }
      else pMeter) =
    { pMeter with
      commitSlot := if 0 < pMeter.committedPoints then slot else pMeter.commitSlot
      commitPos := if 0 < pMeter.committedPoints then pos else pMeter.commitPos } := by
  by_cases some' : 0 < pMeter.committedPoints
  · rw [if_pos some', if_pos some', if_pos some']
  · rw [if_neg some', if_neg some', if_neg some']

theorem meterTurn (fits : CacheFits settings pObj pInfo) (room : 0 < pObj.pointsPerFileBlock)
    {taken written : Writer Row}
    (starts : Start settings pInfo window.commitFirstKey writer.pQuery)
    (took : Taken pObj writer taken lastRows)
    (run : commitBlocks settings compression pObj pInfo window.commitLastKey (turns pInfo + 1)
      lastRows taken = some written) :
    Nonempty (MeterTurn settings compression window pObj pInfo writer.files written.files
      writer.pMeter (if 0 < written.pMeter.committedPoints then
        { written.pMeter with commitSlot := written.pQuery.slot, commitPos := written.pQuery.pos }
        else written.pMeter)) := by
  have slot_eq : taken.pQuery.slot = writer.pQuery.slot := by
    rw [took.pQuery]
  have pos_eq : taken.pQuery.pos = writer.pQuery.pos := by
    rw [took.pQuery]
  have unmet : taken.pQuery.keyIsMet = false := by
    rw [took.pQuery]
    exact starts.notMet
  have placed : Placed pInfo.blocks taken.pQuery.slot taken.pQuery.pos := by
    rw [slot_eq, pos_eq]
    exact starts.placed
  have split : left pInfo.blocks taken.pQuery.slot taken.pQuery.pos = uncommitted pInfo := by
    rw [slot_eq, pos_eq]
    exact starts.split
  have opens : writer.pQuery.isOver = true ↔ ¬ Opens settings pInfo window.commitFirstKey := by
    rw [starts.isOver]
    simp [Opens]
  cases isOver : taken.pQuery.isOver with
  | true =>
    -- nothing is read
    have same : written = taken := by
      unfold commitBlocks at run
      rw [if_pos isOver] at run
      exact (some.inj run).symm
    have idle := took.isOver.mp isOver
    have closed : ¬ (Opens settings pInfo window.commitFirstKey ∨ Merged pObj writer.pMeter) :=
      fun either => either.elim (opens.mp idle.1) idle.2
    subst same
    exact ⟨{
      lastRows := lastRows
      rows := []
      chunks := []
      next := written.pQuery
      merged := took.merged
      notMerged := took.notMerged
      placed := placed
      split := split
      upTo := by simp
      beyond := fun either => absurd either closed
      idle := fun _ => rfl
      flatten := by rw [took.notMerged idle.2]; rfl
      nonempty := by simp
      full := by simp
      files_eq := took.files
      pMeter_eq := by
        rw [noteCommit, took.pMeter]
        simp [chunkBlocks, writeChunks] }⟩
  | false =>
    have enough : (left pInfo.blocks taken.pQuery.slot taken.pQuery.pos).length +
        min lastRows.length 1 < turns pInfo + 1 := by
      have within := distance_lt_turns pInfo taken.pQuery
      unfold distance at within
      omega
    obtain ⟨written', chunks, rows, run', writes⟩ := commitBlocks_writes fits room
      compression window.commitLastKey lastRows _ placed isOver unmet enough
    obtain rfl := some.inj (run.symm.trans run')
    exact ⟨{
      lastRows := lastRows
      rows := rows
      chunks := chunks
      next := written.pQuery
      merged := took.merged
      notMerged := took.notMerged
      placed := writes.reads.placed
      split := writes.reads.split.trans split
      upTo := writes.reads.upTo
      beyond := fun _ => writes.reads.beyond writes.isOver
      idle := by
        intro closed
        rw [not_or] at closed
        exact absurd (took.isOver.mpr ⟨opens.mpr closed.1, closed.2⟩) (by simp [isOver])
      flatten := writes.flatten
      nonempty := writes.nonempty
      full := writes.full
      files_eq := by rw [writes.files, took.files]
      pMeter_eq := by
        rw [noteCommit, writes.pMeter, took.pMeter, took.files] }⟩

variable {sid : Nat}

theorem commitMeter_cases (fits : ∀ pObj, turn.meterList sid = some pObj -> MeterFits settings pObj)
    (run : commitMeter settings compression window sid turn = some turn') :
    ((turn.meterList sid).bind (·.pCache) = none ∧ turn' = turn) ∨
      ∃ pObj pInfo lastKeyOnFile pMeter', turn.meterList sid = some pObj ∧
        pObj.pCache = some pInfo ∧
        turn'.meterList = update turn.meterList sid
          (some { pObj with lastKeyOnFile := lastKeyOnFile }) ∧
        turn'.meterInfo = update turn.meterInfo sid pMeter' ∧
        Nonempty (MeterTurn settings compression window pObj pInfo turn.files turn'.files
          (turn.meterInfo sid) pMeter') := by
  unfold commitMeter at run
  cases here : turn.meterList sid with
  | none =>
    simp only [here, some.injEq] at run
    exact Or.inl ⟨rfl, run.symm⟩
  | some pObj =>
    obtain ⟨room, cache⟩ := fits pObj here
    simp only [here] at run
    cases cached : pObj.pCache with
    | none =>
      simp only [cached, some.injEq] at run
      exact Or.inl ⟨by simpa using cached, run.symm⟩
    | some pInfo =>
      right
      simp only [cached, bind_eq_bind, pure_def] at run
      obtain ⟨⟨pQuery, small⟩, set', run⟩ := bind_eq_some_iff.mp run
      obtain ⟨⟨lastRows, taken⟩, take', run⟩ := bind_eq_some_iff.mp run
      obtain ⟨written, commit', run⟩ := bind_eq_some_iff.mp run
      have starts := vnodeSetCommitQuery_starts (cache pInfo cached) set'
      have taken' := takeLastBlock_taken take'
      simp only [some.injEq] at run
      subst run
      refine ⟨pObj, pInfo, written.lastKeyOnFile, _, rfl, cached, by rw [cached], rfl, ?_⟩
      exact meterTurn (cache pInfo cached) room starts taken' commit'

theorem MeterFits.lastKeyOnFile (fits : MeterFits settings pObj) (key : Int) :
    MeterFits settings { pObj with lastKeyOnFile := key } where
  room := fits.room
  cache := by
    intro pInfo cached
    obtain ⟨fit, increasing, placed⟩ := fits.cache pInfo cached
    exact ⟨fit, increasing, placed⟩

/-- A session outside of a commit, or without a cache, stays as it is. -/
def Untouched (turn turn' : Turn Row) (sid : Nat) : Prop :=
  turn'.meterInfo sid = turn.meterInfo sid ∧ turn'.meterList sid = turn.meterList sid

def Turned (settings : Settings Row) (compression : Int) (window : Window)
    (turn turn' : Turn Row) (sid : Nat) : Prop :=
  ∀ pObj pInfo, turn.meterList sid = some pObj -> pObj.pCache = some pInfo ->
    ∃ files files' lastKeyOnFile,
      turn'.meterList sid = some { pObj with lastKeyOnFile := lastKeyOnFile } ∧
        Nonempty (MeterTurn settings compression window pObj pInfo files files'
          (turn.meterInfo sid) (turn'.meterInfo sid))

theorem commitMeter_others
    (fits : ∀ pObj, turn.meterList sid = some pObj -> MeterFits settings pObj)
    (run : commitMeter settings compression window sid turn = some turn') {other : Nat}
    (differ : other ≠ sid) : Untouched turn turn' other := by
  rcases commitMeter_cases fits run with ⟨-, rfl⟩ | ⟨pObj, pInfo, key, pMeter, -, -, list, info, -⟩
  · exact ⟨rfl, rfl⟩
  · unfold Untouched
    rw [list, info, update_of_ne differ, update_of_ne differ]
    exact ⟨rfl, rfl⟩

theorem commitMeter_fits
    (fits : ∀ sid pObj, turn.meterList sid = some pObj -> MeterFits settings pObj)
    (run : commitMeter settings compression window sid turn = some turn') :
    ∀ sid pObj, turn'.meterList sid = some pObj -> MeterFits settings pObj := by
  intro other pObj found
  by_cases same : other = sid
  · subst same
    rcases commitMeter_cases (fits other) run with
      ⟨-, rfl⟩ | ⟨pObj', pInfo, key, pMeter, here, -, list, -, -⟩
    · exact fits other pObj found
    · rw [list, update_self] at found
      obtain rfl := some.inj found
      exact (fits other pObj' here).lastKeyOnFile key
  · rw [(commitMeter_others (fits sid) run same).2] at found
    exact fits other pObj found

theorem commitMeters_turns {sids : List Nat} (nodup : sids.Nodup)
    (fits : ∀ sid pObj, turn.meterList sid = some pObj -> MeterFits settings pObj)
    (run : commitMeters settings compression window sids turn = some turn') (sid : Nat) :
    (sid ∉ sids ∨ (turn.meterList sid).bind (·.pCache) = none -> Untouched turn turn' sid) ∧
      (sid ∈ sids -> Turned settings compression window turn turn' sid) := by
  induction sids generalizing turn with
  | nil =>
    obtain rfl := some.inj run
    exact ⟨fun _ => ⟨rfl, rfl⟩, fun member => absurd member List.not_mem_nil⟩
  | cons first sids ih =>
    obtain ⟨fresh, nodup⟩ := List.nodup_cons.mp nodup
    obtain ⟨next, step, run⟩ := bind_eq_some_iff.mp run
    obtain ⟨outside, inside⟩ := ih nodup (commitMeter_fits fits step) run
    by_cases same : sid = first
    · subst same
      obtain ⟨infoAfter, listAfter⟩ := outside (Or.inl fresh)
      rcases commitMeter_cases (fits sid) step with
        ⟨noCache, rfl⟩ | ⟨pObj, pInfo, key, pMeter, here, cached, list, info, turned⟩
      · refine ⟨fun _ => ⟨infoAfter, listAfter⟩, fun _ pObj pInfo here cached => ?_⟩
        rw [here, bind_some, cached] at noCache
        exact absurd noCache (by simp)
      · refine ⟨fun absent => ?_, fun _ pObj' pInfo' here' cached' => ?_⟩
        · rcases absent with absent | noCache
          · exact absurd List.mem_cons_self absent
          · rw [here, bind_some, cached] at noCache
            exact absurd noCache (by simp)
        · obtain rfl := some.inj (here.symm.trans here')
          obtain rfl := some.inj (cached.symm.trans cached')
          refine ⟨turn.files, next.files, key, ?_, ?_⟩
          · rw [listAfter, list, update_self]
          · rw [infoAfter, info, update_self]
            exact turned
    · obtain ⟨infoSame, listSame⟩ := commitMeter_others (fits first) step same
      unfold Untouched Turned at *
      rw [infoSame, listSame] at outside inside
      refine ⟨fun absent => outside (absent.imp_left fun absent member =>
        absent (List.mem_cons_of_mem _ member)), fun member => inside ?_⟩
      exact (List.mem_cons.mp member).resolve_left same

end Blocks

end Luomi.Vnode.CommitBlocks
