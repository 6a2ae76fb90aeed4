import Mathlib.Tactic

/-!
# The files of a vnode and the window of a commit (`vnodeFile.c`)

The files of a vnode are numbered by the days of their rows.  A commit and an import
open the files of one window after the other; closing them removes the files that are
too old.  What the files hold is left out, and so are their names on disk.
-/

namespace Luomi.Vnode.CommitWindow

inductive Precision where
  | milli
  | micro

def tsMsPerDay : Precision -> Int
  | .milli => 86400000
  | .micro => 86400000000

/-- `SVnodeObj`: the configuration, the keys and the files that there are. -/
structure SVnodeObj where
  precision : Precision
  daysPerFile : Int
  maxFiles : Int
  firstKey : Int
  lastKey : Int
  lastKeyOnFile : Int
  fileId : Int
  numOfFiles : Int
  commitFirstKey : Int
  commitLastKey : Int
  commitFileId : Int
  files : Finset Int

def newVnode (precision : Precision) (daysPerFile maxFiles firstKey lastKey : Int) :
    SVnodeObj where
  precision := precision
  daysPerFile := daysPerFile
  maxFiles := maxFiles
  firstKey := firstKey
  lastKey := lastKey
  lastKeyOnFile := 0
  fileId := 0
  numOfFiles := 0
  commitFirstKey := 0
  commitLastKey := 0
  commitFileId := 0
  files := ∅

/-- What the file system answers: whether a file can be created, and whether the files
can be opened and are as long as they have to be. -/
structure Disk where
  creates : Int -> Bool
  opens : Bool

/-- `vnodeCreateEmptyCompFile`; there is no second file of one number. -/
def vnodeCreateEmptyCompFile (disk : Disk) (pVnode : SVnodeObj) (fileId : Int) :
    Bool × SVnodeObj :=
  if fileId ∈ pVnode.files ∨ disk.creates fileId = false then (false, pVnode)
  else (true, { pVnode with files := insert fileId pVnode.files })

def createBackward (disk : Disk) : Nat -> Int -> SVnodeObj -> Bool × SVnodeObj
  | 0, _, pVnode => (true, pVnode)
  | filesAdded + 1, fileId, pVnode =>
    match vnodeCreateEmptyCompFile disk pVnode fileId with
    | (false, pVnode) => (false, pVnode)
    | (true, pVnode) => createBackward disk filesAdded (fileId - 1) pVnode

def createFirst (disk : Disk) (pVnode : SVnodeObj) : SVnodeObj :=
  if pVnode.lastKeyOnFile = 0 then
    let daysPerFile := if pVnode.daysPerFile = 0 then 10 else pVnode.daysPerFile
    let fileId := (pVnode.firstKey.tdiv (tsMsPerDay pVnode.precision)).tdiv daysPerFile
    (vnodeCreateEmptyCompFile disk { pVnode with
        daysPerFile := daysPerFile
        fileId := fileId
        lastKeyOnFile := (fileId + 1) * daysPerFile * tsMsPerDay pVnode.precision - 1
        numOfFiles := 1 } fileId).2
  else pVnode

def setWindow (pVnode : SVnodeObj) (numOfFiles filesAdded : Int) : SVnodeObj :=
  let commitLastKey :=
    pVnode.lastKeyOnFile - numOfFiles * tsMsPerDay pVnode.precision * pVnode.daysPerFile
  { pVnode with
    commitLastKey := commitLastKey
    commitFirstKey := commitLastKey - tsMsPerDay pVnode.precision * pVnode.daysPerFile + 1
    commitFileId := pVnode.fileId - numOfFiles
    numOfFiles := pVnode.numOfFiles + filesAdded }

/-- `vnodeOpenCommitFiles`; false stands for -1. -/
def vnodeOpenCommitFiles (disk : Disk) (pVnode : SVnodeObj) : Bool × SVnodeObj :=
  let pVnode := createFirst disk pVnode
  let numOfFiles :=
    if pVnode.commitFirstKey > pVnode.lastKeyOnFile then -1
    else
      ((pVnode.lastKeyOnFile - pVnode.commitFirstKey).tdiv (tsMsPerDay pVnode.precision)).tdiv
        pVnode.daysPerFile
  if numOfFiles ≥ pVnode.numOfFiles then
    let filesAdded := numOfFiles - pVnode.numOfFiles + 1
    match createBackward disk filesAdded.toNat (pVnode.fileId - pVnode.numOfFiles) pVnode with
    | (false, pVnode) => (false, pVnode)
    | (true, pVnode) => (disk.opens, setWindow pVnode numOfFiles filesAdded)
  else if numOfFiles < 0 then
    let fileId := pVnode.fileId + 1
    match vnodeCreateEmptyCompFile disk { pVnode with fileId := fileId } fileId with
    | (false, pVnode) => (false, pVnode)
    | (true, pVnode) =>
      (disk.opens, setWindow { pVnode with
            lastKeyOnFile :=
              pVnode.lastKeyOnFile + tsMsPerDay pVnode.precision * pVnode.daysPerFile }
          0 1)
  else (disk.opens, setWindow pVnode numOfFiles 0)

def fileOf (pVnode : SVnodeObj) (time : Int) : Int :=
  (time.tdiv pVnode.daysPerFile).tdiv (tsMsPerDay pVnode.precision)

def removeFiles (limit : Int) : Nat -> Int -> SVnodeObj -> SVnodeObj
  | 0, _, pVnode => pVnode
  | turns + 1, fileId, pVnode =>
    if fileId ≤ limit then
      removeFiles limit turns (fileId + 1)
        { pVnode with
          files := pVnode.files.erase fileId, numOfFiles := pVnode.numOfFiles - 1 }
    else pVnode

def vnodeCloseCommitFiles (clock : Int) (pVnode : SVnodeObj) : SVnodeObj :=
  let fileId := pVnode.fileId - pVnode.numOfFiles + 1
  let limit := fileOf pVnode clock - pVnode.maxFiles
  removeFiles limit (limit - fileId + 1).toNat fileId pVnode

/-- One window of a commit: the answers of the file system, what the inserts of others
and the writing of the meters have made of the keys, and the time at the end. -/
structure Round where
  disk : Disk
  firstKey : Int
  lastKey : Int
  clock : Int

/-- What a commit has done: the vnode behind every `vnodeOpenCommitFiles` that has returned
0, the vnode at the end, and whether it has come to its end. -/
structure Commit where
  opened : List SVnodeObj
  after : SVnodeObj
  finished : Bool

def closeRound (round : Round) (opened : SVnodeObj) : SVnodeObj :=
  vnodeCloseCommitFiles round.clock
    { opened with firstKey := round.firstKey, lastKey := round.lastKey }

def commitAgain (pVnode : SVnodeObj) : SVnodeObj :=
  { pVnode with commitFirstKey := pVnode.commitLastKey + 1 }

/-- The loop of `vnodeCommitMultiToFile` over the windows. -/
def commitLoop : List Round -> SVnodeObj -> Commit
  | [], pVnode => ⟨[], pVnode, false⟩
  | round :: rest, pVnode =>
    match vnodeOpenCommitFiles round.disk pVnode with
    | (false, pVnode) => ⟨[], pVnode, true⟩
    | (true, opened) =>
      if round.lastKey > opened.commitLastKey then
        let later := commitLoop rest (commitAgain (closeRound round opened))
        { later with opened := opened :: later.opened }
      else ⟨[opened], closeRound round opened, true⟩

def vnodeCommitMultiToFile (rounds : List Round) (pVnode : SVnodeObj) : Commit :=
  if pVnode.lastKey = 0 then ⟨[], pVnode, true⟩
  else
    commitLoop rounds
      { pVnode with commitFirstKey := pVnode.firstKey, firstKey := pVnode.lastKey + 1 }

inductive FileEvent where
  /-- Rows are inserted. -/
  | keys (firstKey lastKey : Int)
  /-- `vnodeOpenFileForImport` opens the files for a key. -/
  | openForImport (disk : Disk) (firstKey : Int)
  /-- `vnodeCloseFileForImport` closes them. -/
  | closeForImport (clock : Int)
  | commit (rounds : List Round)

def fileStep (pVnode : SVnodeObj) : FileEvent -> SVnodeObj
  | .keys firstKey lastKey => { pVnode with firstKey := firstKey, lastKey := lastKey }
  | .openForImport disk firstKey =>
    (vnodeOpenCommitFiles disk { pVnode with commitFirstKey := firstKey }).2
  | .closeForImport clock => vnodeCloseCommitFiles clock pVnode
  | .commit rounds => (vnodeCommitMultiToFile rounds pVnode).after

def delta (pVnode : SVnodeObj) : Int := pVnode.daysPerFile * tsMsPerDay pVnode.precision

def FilesKept (pVnode : SVnodeObj) : Prop :=
  pVnode.lastKeyOnFile = (pVnode.fileId + 1) * delta pVnode - 1 ∧ 0 ≤ pVnode.numOfFiles ∧
    pVnode.files = Finset.Icc (pVnode.fileId - pVnode.numOfFiles + 1) pVnode.fileId

def FilesRight (pVnode : SVnodeObj) : Prop :=
  pVnode.lastKeyOnFile = 0 ∧ pVnode.numOfFiles = 0 ∧ pVnode.files = ∅ ∨ FilesKept pVnode

def WindowRight (pVnode : SVnodeObj) : Prop :=
  FilesKept pVnode ∧ pVnode.commitFirstKey = pVnode.commitFileId * delta pVnode ∧
    pVnode.commitLastKey = (pVnode.commitFileId + 1) * delta pVnode - 1 ∧
    pVnode.fileId - pVnode.numOfFiles + 1 ≤ pVnode.commitFileId ∧
    pVnode.commitFileId ≤ pVnode.fileId

/-- The windows of a commit are opened one after the other, every one from that of the
first key to that of the last key once, and one behind the first only for a key in it or
behind it; then the commit is over. -/
def WindowsRight (pVnode : SVnodeObj) (rounds : List Round) : Prop :=
  let commit := vnodeCommitMultiToFile rounds pVnode
  let windows := commit.opened.map SVnodeObj.commitFileId
  pVnode.lastKey ≠ 0 -> ∃ start ≤ pVnode.firstKey / delta pVnode,
    windows = (List.range commit.opened.length).map (fun turn : Nat => start + turn) ∧
    (∀ window ∈ windows, window = start ∨ ∃ round ∈ rounds, window ≤ round.lastKey / delta pVnode) ∧
    ((∀ round ∈ rounds, round.disk.opens = true) -> (commit.finished = true ->
        ∀ window, start ≤ window -> window ≤ commit.after.lastKey / delta pVnode ->
          windows.count window = 1) ∧
      ∀ high, (∀ round ∈ rounds, round.lastKey / delta pVnode ≤ high) ->
        (high - start).toNat < rounds.length -> commit.finished = true)

def StepRight (pVnode : SVnodeObj) (event : FileEvent) : Prop :=
  FilesRight (fileStep pVnode event) ∧
    match event with
    | .openForImport disk firstKey =>
      ∀ next, vnodeOpenCommitFiles disk { pVnode with commitFirstKey := firstKey } =
        (true, next) -> WindowRight next
    | .commit rounds =>
      (∀ opened ∈ (vnodeCommitMultiToFile rounds pVnode).opened, WindowRight opened) ∧
        WindowsRight pVnode rounds
    | _ => True

def RunRight (pVnode : SVnodeObj) : List FileEvent -> Prop
  | [] => True
  | event :: rest => StepRight pVnode event ∧ RunRight (fileStep pVnode event) rest

def Creates (disk : Disk) : Prop := ∀ fileId, disk.creates fileId = true

def NewestKept (pVnode : SVnodeObj) (clock : Int) : Prop :=
  fileOf pVnode clock - pVnode.maxFiles ≤ pVnode.fileId

instance (pVnode : SVnodeObj) (clock : Int) : Decidable (NewestKept pVnode clock) :=
  inferInstanceAs (Decidable (_ ≤ _))

def HeldLoop : List Round -> SVnodeObj -> Prop
  | [], _ => True
  | round :: rest, pVnode =>
    Creates round.disk ∧
      ∀ opened, vnodeOpenCommitFiles round.disk pVnode = (true, opened) ->
        NewestKept opened round.clock ∧
          HeldLoop rest (commitAgain (closeRound round opened))

def Held (pVnode : SVnodeObj) : FileEvent -> Prop
  | .keys _ _ => True
  | .openForImport disk _ => Creates disk
  | .closeForImport clock => NewestKept pVnode clock
  | .commit rounds =>
    HeldLoop rounds
      { pVnode with commitFirstKey := pVnode.firstKey, firstKey := pVnode.lastKey + 1 }

def HeldRun (pVnode : SVnodeObj) : List FileEvent -> Prop
  | [] => True
  | event :: rest => Held pVnode event ∧ HeldRun (fileStep pVnode event) rest

end Luomi.Vnode.CommitWindow
