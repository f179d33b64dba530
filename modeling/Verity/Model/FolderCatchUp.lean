import Verity.Model.FolderWatch

/-!
# The progress of a watched folder

One time in the row of a watch, `last_seen`, stands for how far the files of its folder are
ingested. The consumer of live events moves it on after each file it ingested, a scan of the files
there are when the folder is added moves it at its end, and the catch-up on boot passes the files
that were modified before it.

The files change at any time, and a crash ends the catch-up and the scans. Whether an ingest that is
tried succeeds, and whether a best-effort update of `last_seen` does, comes with the event. Stopping
a watch is left out.
-/

set_option autoImplicit false

namespace Verity.Model

/-! ## The files below a folder -/

mutual

/-- A regular file with its modification time and its bytes, or a directory. -/
inductive FileTree where
  | file (modified : Time) (raw : List UInt8)
  | dir (entries : DirEntries)

/-- The entries of a directory. -/
inductive DirEntries where
  | nil
  | cons (name : String) (node : FileTree) (rest : DirEntries)

end

def DirEntries.find (name : String) : DirEntries → Option FileTree
  | .nil => none
  | .cons n node rest => if n = name then some node else rest.find name

/-- What is at a path below the directory. -/
def FileTree.get : FileTree → FilePath → Option FileTree
  | node, [] => some node
  | .dir entries, name :: path => (entries.find name).bind fun node => node.get path
  | .file _ _, _ :: _ => none

/-- The modification time and the bytes of the regular file at a path. -/
def FileTree.fileAt (root : FileTree) (path : FilePath) : Option (Time × List UInt8) :=
  match root.get path with
  | some (.file modified raw) => some (modified, raw)
  | _ => none

mutual

/-- The files at and below a path, without the entries that are skipped. -/
def FileTree.collect (skip : String → Bool) (path : FilePath) : FileTree → List FilePath
  | .file _ _ => [path]
  | .dir entries => entries.collect skip path

def DirEntries.collect (skip : String → Bool) (path : FilePath) : DirEntries → List FilePath
  | .nil => []
  | .cons name node rest =>
    (if skip name then [] else node.collect skip (path ++ [name])) ++ rest.collect skip path

end

/-- The files of a folder, by their paths below it. One that cannot be listed has none.
SOURCE: folder_watch.rs:911-936 -/
def collectFiles : FileTree → List FilePath
  | .dir entries => (entries.collect isSkippable []).insertionSort (· ≤ ·)
  | .file _ _ => []

/-- SOURCE: folder_watch.rs:897-907 -/
def changedSince (root : FileTree) (path : FilePath) (since : Option Time) : Bool :=
  match since with
  | none => true
  | some since =>
    match root.fileAt path with
    | some (modified, _) => decide (since ≤ modified)
    | none => false

/-! ## The states of a watch -/

/-- A scan of the files that are there when it lists them. -/
structure Scan where
  remaining : Option (List FilePath)
  cancel : Bool
deriving DecidableEq, Repr

/-- The server is down, it catches up on boot, or the live watch is armed: the scans that run, and
how many live ingests have the update of `last_seen` still to come. -/
inductive FolderPhase where
  | down
  | walking (remaining : List FilePath) (since : Option Time) (caughtUp : Nat)
  | up (scans : List Scan) (touches : Nat)
deriving DecidableEq, Repr

/-- A watched folder: the clock, its files, `last_seen`, and what was ingested, the last first. -/
structure FolderState where
  now : Time
  files : FileTree
  lastSeen : Option Time
  ingested : List (FilePath × List UInt8)
  phase : FolderPhase

inductive FolderEvent where
  | tick (now : Time)
  | change (files : FileTree)
  | crash
  | boot
  | walkFile (served : Bool)
  | walkEnd (touched : Bool)
  | live (path : FilePath) (served : Bool)
  | touch (touched : Bool)
  | register
  | scanList (scan : Nat)
  | scanFile (scan : Nat) (served : Bool)
  | cancelScan (scan : Nat)
  | scanAbort (scan : Nat)
  | scanEnd (scan : Nat) (touched : Bool)

namespace FolderState

variable (lib : FileLibraries) (watch : WatchRow)

/-- What an `ingest_file` of the path reads and delivers, when it does not fail. -/
def deliverable (s : FolderState) (path : FilePath) : Option (List UInt8) := do
  let (modified, raw) ← s.files.fileAt path
  let _ ← ingestFile lib watch (pathComponents watch.path ++ path) s.now
    (some ⟨raw.length, some modified, some raw⟩)
  some raw

/-- `ingest_file`, and whether it ingested. -/
def ingest (s : FolderState) (path : FilePath) (served : Bool) : FolderState × Bool :=
  match s.deliverable lib watch path with
  | some raw =>
    if served then ({ s with ingested := (path, raw) :: s.ingested }, true) else (s, false)
  | none => (s, false)

/-- SOURCE: folder_watch.rs:488-494 -/
def touchLastSeen (s : FolderState) (touched : Bool) : FolderState :=
  if touched then { s with lastSeen := some s.now } else s

/-- One event of the folder, the server or one of its tasks. -/
def step (s : FolderState) : FolderEvent → Option FolderState
  | .tick now => if s.now ≤ now then some { s with now := now } else none
  | .change files => some { s with files := files }
  | .crash => some { s with phase := .down }
  -- SOURCE: folder_watch.rs:865-873
  | .boot =>
    match s.phase, s.files with
    | .down, .dir _ => some { s with phase := .walking (collectFiles s.files) s.lastSeen 0 }
    | _, _ => none
  -- SOURCE: folder_watch.rs:873-884
  | .walkFile served =>
    match s.phase with
    | .walking (path :: rest) since caughtUp =>
      if changedSince s.files path since then
        let (s', ok) := s.ingest lib watch path served
        some { s' with phase := .walking rest since (if ok then caughtUp + 1 else caughtUp) }
      else some { s with phase := .walking rest since caughtUp }
    | _ => none
  -- SOURCE: folder_watch.rs:885-891
  | .walkEnd touched =>
    match s.phase with
    | .walking [] _ caughtUp =>
      some { s.touchLastSeen (decide (0 < caughtUp) && touched) with phase := .up [] 0 }
    | _ => none
  -- SOURCE: folder_watch.rs:464-479
  | .live path served =>
    match s.phase with
    | .up scans touches =>
      let (s', ok) := s.ingest lib watch path served
      some { s' with phase := .up scans (if ok then touches + 1 else touches) }
    | _ => none
  | .touch touched =>
    match s.phase with
    | .up scans (touches + 1) =>
      some { s.touchLastSeen touched with phase := .up scans touches }
    | _ => none
  -- SOURCE: folder_watch.rs:775-823
  | .register =>
    match s.phase with
    | .up scans touches =>
      some { s with
        phase := .up (scans.map (fun scan => { scan with cancel := true }) ++
          [⟨none, false⟩]) touches }
    | _ => none
  -- SOURCE: folder_watch.rs:689-690
  | .scanList i =>
    match s.phase with
    | .up scans touches =>
      match scans[i]? with
      | some ⟨none, cancel⟩ =>
        some { s with
          phase := .up (scans.set i ⟨some (collectFiles s.files), cancel⟩) touches }
      | _ => none
    | _ => none
  -- SOURCE: folder_watch.rs:705-728
  | .scanFile i served =>
    match s.phase with
    | .up scans touches =>
      match scans[i]? with
      | some ⟨some (path :: rest), false⟩ =>
        some { (s.ingest lib watch path served).1 with
          phase := .up (scans.set i ⟨some rest, false⟩) touches }
      | _ => none
    | _ => none
  -- SOURCE: folder_watch.rs:177-191
  | .cancelScan i =>
    match s.phase with
    | .up scans touches =>
      match scans[i]? with
      | some scan =>
        some { s with phase := .up (scans.set i { scan with cancel := true }) touches }
      | none => none
    | _ => none
  -- the listing fails, or a file panics: SOURCE: folder_watch.rs:691-698, 619-649
  | .scanAbort i =>
    match s.phase with
    | .up scans touches =>
      if i < scans.length then some { s with phase := .up (scans.eraseIdx i) touches } else none
    | _ => none
  -- SOURCE: folder_watch.rs:731-746
  | .scanEnd i touched =>
    match s.phase with
    | .up scans touches =>
      match scans[i]? with
      | some ⟨some [], _⟩ =>
        some { s.touchLastSeen touched with phase := .up (scans.eraseIdx i) touches }
      | some ⟨some (_ :: _), true⟩ => some { s with phase := .up (scans.eraseIdx i) touches }
      | _ => none
    | _ => none

end FolderState

end Verity.Model
