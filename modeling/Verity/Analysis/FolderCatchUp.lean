import Verity.Analysis.WatchedFiles
import Verity.Model.FolderCatchUp

/-!
# What the catch-up on boot misses

A file is outstanding while its content is not the one that was ingested of it last. The catch-up
finds it when `last_seen` is not past its modification time. Every move of `last_seen` goes to the
present, past all that is outstanding then; so nothing is missed exactly when nothing is outstanding
at a move, and no file comes with a modification time from before `last_seen`.
-/

set_option autoImplicit false

namespace Verity.Analysis

open Verity.Foundation
open Verity.Model

variable {remaining : List FilePath} {since : Option Time} {caughtUp : Nat}

/-! ## The files of a folder -/

theorem fileAt_dir {entries : DirEntries} {name : String} {path : FilePath}
    {x : Time × List UInt8} (h : (FileTree.dir entries).fileAt (name :: path) = some x) :
    ∃ node, entries.find name = some node ∧ node.fileAt path = some x := by
  unfold FileTree.fileAt at h
  rw [FileTree.get] at h
  cases hfind : entries.find name with
  | none =>
    rw [hfind] at h
    cases h
  | some node =>
    rw [hfind, Option.bind_some] at h
    exact ⟨node, rfl, h⟩

/-- The file at a path is collected, where no component of the path is skipped. -/
theorem mem_collect {skip : String → Bool} (node : FileTree) :
    ∀ (below path : FilePath) (x : Time × List UInt8), node.fileAt path = some x →
      (∀ c ∈ path, skip c = false) → below ++ path ∈ node.collect skip below := by
  refine @FileTree.rec
    (fun node => ∀ (below path : FilePath) (x : Time × List UInt8), node.fileAt path = some x →
      (∀ c ∈ path, skip c = false) → below ++ path ∈ node.collect skip below)
    (fun entries => ∀ (below : FilePath) (name : String) (path : FilePath) (node : FileTree)
      (x : Time × List UInt8), entries.find name = some node → node.fileAt path = some x →
        (∀ c ∈ name :: path, skip c = false) → below ++ name :: path ∈ entries.collect skip below)
    ?file ?dir ?nil ?cons node
  case file =>
    intro modified raw below path x h _
    cases path with
    | nil =>
      rw [List.append_nil, FileTree.collect]
      exact List.mem_singleton_self _
    | cons name path => cases h
  case dir =>
    intro entries ih below path x h hskip
    cases path with
    | nil => cases h
    | cons name path =>
      obtain ⟨node, hfind, hfile⟩ := fileAt_dir h
      rw [FileTree.collect]
      exact ih below name path node x hfind hfile hskip
  case nil =>
    intro below name path node x hfind
    cases hfind
  case cons =>
    intro name' node' rest ihnode ihrest below name path node x hfind hfile hskip
    rw [DirEntries.find] at hfind
    rw [DirEntries.collect, List.mem_append]
    split at hfind
    · rename_i hname
      cases hfind
      have hin := ihnode (below ++ [name]) path x hfile fun c hc =>
        hskip c (List.mem_cons_of_mem _ hc)
      rw [List.append_assoc, List.singleton_append] at hin
      rw [hname, hskip name List.mem_cons_self, if_neg Bool.false_ne_true]
      exact Or.inl hin
    · exact Or.inr (ihrest below name path node x hfind hfile hskip)

/-- A file below the folder that is not hidden or temporary, nor in a directory that is. -/
theorem mem_collectFiles {root : FileTree} {path : FilePath} {x : Time × List UInt8}
    (h : root.fileAt path = some x) (hne : path ≠ []) (hskip : ∀ c ∈ path, isSkippable c = false) :
    path ∈ collectFiles root := by
  have hmem := mem_collect root [] path x h hskip
  cases root with
  | file modified raw =>
    cases path with
    | nil => exact absurd rfl hne
    | cons name path => cases h
  | dir entries =>
    rw [FileTree.collect, List.nil_append] at hmem
    exact (List.mem_insertionSort _).mpr hmem

/-! ## What a step does -/

section Steps

variable (lib : FileLibraries) (watch : WatchRow)

/-- The files once a step is taken. -/
def filesAfter (s : FolderState) : FolderEvent → FileTree
  | .change files => files
  | _ => s.files

/-- The file a step ingests, and its bytes. -/
def ingestedBy (s : FolderState) : FolderEvent → Option (FilePath × List UInt8)
  | .walkFile served =>
    match s.phase with
    | .walking (path :: _) since _ =>
      if changedSince s.files path since && served then
        (s.deliverable lib watch path).map fun raw => (path, raw)
      else none
    | _ => none
  | .live path served =>
    match s.phase with
    | .up _ _ =>
      if served then (s.deliverable lib watch path).map fun raw => (path, raw) else none
    | _ => none
  | .scanFile i served =>
    match s.phase with
    | .up scans _ =>
      match scans[i]? with
      | some ⟨some (path :: _), false⟩ =>
        if served then (s.deliverable lib watch path).map fun raw => (path, raw) else none
      | _ => none
    | _ => none
  | _ => none

/-- Whether a step moves `last_seen` to the present. -/
def movesLastSeen (s : FolderState) : FolderEvent → Bool
  | .walkEnd touched =>
    match s.phase with
    | .walking [] _ caughtUp => decide (0 < caughtUp) && touched
    | _ => false
  | .touch touched =>
    match s.phase with
    | .up _ (_ + 1) => touched
    | _ => false
  | .scanEnd i touched =>
    match s.phase with
    | .up scans _ =>
      match scans[i]? with
      | some ⟨some [], _⟩ => touched
      | _ => false
    | _ => false
  | _ => false

variable {lib watch} {s s' : FolderState} {e : FolderEvent}

theorem ingest_eq (s : FolderState) (path : FilePath) (served : Bool) :
    s.ingest lib watch path served =
      let entry :=
        if served then (s.deliverable lib watch path).map fun raw => (path, raw) else none
      ({ s with ingested := entry.toList ++ s.ingested }, entry.isSome) := by
  unfold FolderState.ingest
  cases s.deliverable lib watch path with
  | none => cases served <;> rfl
  | some raw => cases served <;> rfl

theorem touchLastSeen_eq (s : FolderState) (touched : Bool) :
    s.touchLastSeen touched =
      { s with lastSeen := if touched then some s.now else s.lastSeen } := by
  cases touched <;> rfl

/-- What a step does to the files, to what is ingested and to `last_seen`. -/
theorem step_effect (h : s.step lib watch e = some s') :
    s'.files = filesAfter s e ∧ s'.ingested = (ingestedBy lib watch s e).toList ++ s.ingested ∧
      s'.lastSeen = if movesLastSeen s e then some s.now else s.lastSeen := by
  cases e with
  | tick _ | boot | register =>
    simp only [FolderState.step] at h
    split at h
    · cases h
      exact ⟨rfl, rfl, rfl⟩
    · cases h
  | change files =>
    cases h
    exact ⟨rfl, rfl, rfl⟩
  | crash =>
    cases h
    exact ⟨rfl, rfl, rfl⟩
  | walkFile served =>
    simp only [FolderState.step] at h
    split at h
    · rename_i path rest since caughtUp hphase
      unfold ingestedBy
      rw [hphase]
      dsimp only
      split at h
      · rename_i hchanged
        rw [ingest_eq] at h
        cases h
        rw [hchanged, Bool.true_and]
        exact ⟨rfl, rfl, rfl⟩
      · rename_i hchanged
        cases h
        rw [Bool.eq_false_iff.mpr hchanged, Bool.false_and, if_neg Bool.false_ne_true]
        exact ⟨rfl, rfl, rfl⟩
    · cases h
  | walkEnd touched =>
    simp only [FolderState.step] at h
    split at h
    · rename_i since caughtUp hphase
      unfold movesLastSeen
      rw [hphase]
      rw [touchLastSeen_eq] at h
      cases h
      exact ⟨rfl, rfl, rfl⟩
    · cases h
  | live path served =>
    simp only [FolderState.step] at h
    split at h
    · rename_i scans touches hphase
      rw [ingest_eq] at h
      unfold ingestedBy
      rw [hphase]
      cases h
      exact ⟨rfl, rfl, rfl⟩
    · cases h
  | touch touched =>
    simp only [FolderState.step] at h
    split at h
    · rename_i scans touches hphase
      rw [touchLastSeen_eq] at h
      unfold movesLastSeen
      rw [hphase]
      cases h
      exact ⟨rfl, rfl, rfl⟩
    · cases h
  | scanList _ | cancelScan _ | scanAbort _ =>
    simp only [FolderState.step] at h
    split at h
    · split at h
      · cases h
        exact ⟨rfl, rfl, rfl⟩
      · cases h
    · cases h
  | scanFile i served =>
    simp only [FolderState.step] at h
    split at h
    · rename_i scans touches hphase
      split at h
      · rename_i path rest hscan
        rw [ingest_eq] at h
        unfold ingestedBy
        rw [hphase]
        dsimp only
        rw [hscan]
        cases h
        exact ⟨rfl, rfl, rfl⟩
      · cases h
    · cases h
  | scanEnd i touched =>
    simp only [FolderState.step] at h
    split at h
    · rename_i scans touches hphase
      split at h
      · rename_i cancel hscan
        have hmoves : movesLastSeen s (.scanEnd i touched) = touched := by
          simp only [movesLastSeen, hphase, hscan]
        rw [touchLastSeen_eq] at h
        rw [hmoves]
        cases h
        exact ⟨rfl, rfl, rfl⟩
      · rename_i path rest hscan
        have hmoves : movesLastSeen s (.scanEnd i touched) = false := by
          simp only [movesLastSeen, hphase, hscan]
        rw [hmoves]
        cases h
        exact ⟨rfl, rfl, rfl⟩
      · cases h
    · cases h

end Steps

/-! ## Outstanding files -/

/-- The content that was ingested of a file last. -/
def latestIngested (s : FolderState) (path : FilePath) : Option (List UInt8) :=
  (s.ingested.find? fun entry => entry.1 = path).map (·.2)

section Outstanding

variable (lib : FileLibraries) (watch : WatchRow)

/-- A file of the folder is ingestible, and its content is not the one ingested of it last. -/
def Outstanding (s : FolderState) (path : FilePath) : Prop :=
  path ≠ [] ∧ (∀ c ∈ path, isSkippable c = false) ∧
    ∃ raw, s.deliverable lib watch path = some raw ∧ latestIngested s path ≠ some raw

/-- `last_seen` is not past the modification time of an outstanding file. -/
def NeverPast (s : FolderState) : Prop :=
  ∀ path, Outstanding lib watch s path → changedSince s.files path s.lastSeen = true

variable {lib watch} {s s' : FolderState} {e : FolderEvent} {path : FilePath}

theorem deliverable_congr (hfile : s'.files.fileAt path = s.files.fileAt path) :
    s'.deliverable lib watch path = s.deliverable lib watch path := by
  unfold FolderState.deliverable
  rw [hfile]
  cases s.files.fileAt path <;> rfl

theorem changedSince_congr {root root' : FileTree} (hfile : root'.fileAt path = root.fileAt path)
    (since : Option Time) : changedSince root' path since = changedSince root path since := by
  unfold changedSince
  rw [hfile]

/-- What a step ingests of a file is what there is to deliver of it. -/
theorem ingestedBy_deliverable {raw : List UInt8}
    (h : ingestedBy lib watch s e = some (path, raw)) :
    s.deliverable lib watch path = some raw := by
  have hmap : ∀ path', (s.deliverable lib watch path').map (fun raw => (path', raw)) =
      some (path, raw) → s.deliverable lib watch path = some raw := by
    intro path' hmap
    obtain ⟨raw', hraw, heq⟩ := Option.map_eq_some_iff.mp hmap
    cases heq
    exact hraw
  cases e with
  | walkFile _ | live _ _ =>
    simp only [ingestedBy] at h
    split at h
    · split at h
      · exact hmap _ h
      · cases h
    · cases h
  | scanFile i served =>
    simp only [ingestedBy] at h
    split at h
    · split at h
      · split at h
        · exact hmap _ h
        · cases h
      · cases h
    · cases h
  | _ => cases h

/-- A file that a step does not change stays outstanding unless the step ingests it. -/
theorem outstanding_step (hstep : s.step lib watch e = some s')
    (hfile : (filesAfter s e).fileAt path = s.files.fileAt path) :
    Outstanding lib watch s' path ↔
      Outstanding lib watch s path ∧ ∀ raw, ingestedBy lib watch s e ≠ some (path, raw) := by
  obtain ⟨hfiles, hingested, -⟩ := step_effect hstep
  have hdeliver : s'.deliverable lib watch path = s.deliverable lib watch path := by
    refine deliverable_congr ?_
    rw [hfiles, hfile]
  unfold Outstanding
  rw [hdeliver]
  by_cases hnow : ∃ raw, ingestedBy lib watch s e = some (path, raw)
  · obtain ⟨raw, hraw⟩ := hnow
    have hlast : latestIngested s' path = some raw := by
      unfold latestIngested
      rw [hingested, hraw]
      simp
    constructor
    · rintro ⟨-, -, raw', hraw', hne⟩
      rw [ingestedBy_deliverable hraw] at hraw'
      exact absurd (hlast.trans hraw') hne
    · rintro ⟨-, hnone⟩
      exact absurd hraw (hnone raw)
  · have hlast : latestIngested s' path = latestIngested s path := by
      unfold latestIngested
      rw [hingested]
      cases hby : ingestedBy lib watch s e with
      | none => rfl
      | some entry =>
        have hother : entry.1 ≠ path := by
          rintro rfl
          exact hnow ⟨entry.2, hby⟩
        rw [Option.toList_some, List.singleton_append,
          List.find?_cons_of_neg (by simpa using hother)]
    rw [hlast]
    exact ⟨fun h => ⟨h, fun raw hraw => hnow ⟨raw, hraw⟩⟩, fun h => h.1⟩

end Outstanding

/-! ## Catch-ups that run to their end -/

/-- The folder with what the claims about it look back at: whether the catch-up that runs had no
failure, the files not modified since it began, and those not modified since one ended without a
failure. -/
structure CatchUp where
  state : FolderState
  clean : Bool
  unmodified : FilePath → Bool
  caught : FilePath → Bool

/-- The folder is added, with these files in it. -/
def CatchUp.start (now : Time) (files : FileTree) : CatchUp where
  state := ⟨now, files, none, [], .up [] 0⟩
  clean := false
  unmodified := fun _ => false
  caught := fun _ => false

def isBoot : FolderEvent → Bool
  | .boot => true
  | _ => false

/-- The catch-up comes to its end. -/
def endsWalk (s : FolderState) : FolderEvent → Bool
  | .walkEnd _ =>
    match s.phase with
    | .walking [] _ _ => true
    | _ => false
  | _ => false

/-- A step leaves what is at a path. -/
def leaves (s : FolderState) (e : FolderEvent) (path : FilePath) : Bool :=
  decide ((filesAfter s e).fileAt path = s.files.fileAt path)

section CatchUps

variable (lib : FileLibraries) (watch : WatchRow)

/-- An ingest of the catch-up fails. -/
def walkFails (s : FolderState) : FolderEvent → Bool
  | .walkFile served =>
    match s.phase with
    | .walking (path :: _) since _ =>
      changedSince s.files path since && (s.deliverable lib watch path).isSome && !served
    | _ => false
  | _ => false

def catchUpStep (c : CatchUp) (e : FolderEvent) : Option CatchUp :=
  (c.state.step lib watch e).map fun s =>
    { state := s
      clean := isBoot e || (c.clean && !walkFails lib watch c.state e)
      unmodified := fun path => isBoot e || (c.unmodified path && leaves c.state e path)
      caught := fun path =>
        (endsWalk c.state e && c.clean) || (c.caught path && leaves c.state e path) }

/-- No file is outstanding that was not modified since a catch-up ended without a failure. -/
def NothingMissed (c : CatchUp) : Prop :=
  ∀ path, c.caught path = true → ¬ Outstanding lib watch c.state path

/-- A step moves `last_seen` only when it passes no file that stays outstanding, no outstanding file
comes with a modification time before `last_seen`, and a catch-up without a failure ends when no
file that was modified meanwhile is outstanding. -/
def Cautious (c : CatchUp) (e : FolderEvent) : Prop :=
  (movesLastSeen c.state e = true →
      ∀ path, Outstanding lib watch c.state path →
        (∀ raw, ingestedBy lib watch c.state e ≠ some (path, raw)) →
          changedSince c.state.files path (some c.state.now) = true) ∧
    (∀ files, e = .change files →
      ∀ path, leaves c.state e path = false →
        Outstanding lib watch { c.state with files := files } path →
          changedSince files path c.state.lastSeen = true) ∧
    (endsWalk c.state e = true → c.clean = true →
      ∀ path, c.unmodified path = false → ¬ Outstanding lib watch c.state path)

/-- The catch-up has every outstanding file ahead of it that was not modified since it began. -/
structure OnCourse (c : CatchUp) : Prop where
  neverPast : NeverPast lib watch c.state
  nothingMissed : NothingMissed lib watch c
  ahead : ∀ remaining since caughtUp, c.state.phase = .walking remaining since caughtUp →
    since = c.state.lastSeen ∧ (c.clean = true → ∀ path, c.unmodified path = true →
      Outstanding lib watch c.state path → path ∈ remaining)

variable {lib watch} {c c' : CatchUp} {e : FolderEvent}

theorem catchUpStep_state (hstep : catchUpStep lib watch c e = some c') :
    c.state.step lib watch e = some c'.state := by
  obtain ⟨s, hs, rfl⟩ := Option.map_eq_some_iff.mp hstep
  exact hs

/-- A step to a state of the catch-up begins it, or leaves `last_seen` and passes at most the next
of its files. -/
theorem walking_step {s s' : FolderState} (hstep : s.step lib watch e = some s')
    (hphase : s'.phase = .walking remaining since caughtUp) :
    (e = .boot ∧ remaining = collectFiles s.files ∧ since = s.lastSeen) ∨
      (isBoot e = false ∧ ∃ before caughtUp', s.phase = .walking before since caughtUp' ∧
        (before = remaining ∨
          ∃ path served, e = .walkFile served ∧ before = path :: remaining)) := by
  cases e with
  | tick now =>
    simp only [FolderState.step] at hstep
    split at hstep
    · cases hstep
      exact Or.inr ⟨rfl, remaining, caughtUp, hphase, Or.inl rfl⟩
    · cases hstep
  | change files =>
    cases hstep
    exact Or.inr ⟨rfl, remaining, caughtUp, hphase, Or.inl rfl⟩
  | crash =>
    cases hstep
    cases hphase
  | boot =>
    simp only [FolderState.step] at hstep
    split at hstep
    · cases hstep
      cases hphase
      exact Or.inl ⟨rfl, rfl, rfl⟩
    · cases hstep
  | walkFile served =>
    simp only [FolderState.step] at hstep
    split at hstep
    · rename_i path rest since' caughtUp' hbefore
      split at hstep
      · cases hstep
        cases hphase
        exact Or.inr ⟨rfl, _, _, hbefore, Or.inr ⟨path, served, rfl, rfl⟩⟩
      · cases hstep
        cases hphase
        exact Or.inr ⟨rfl, _, _, hbefore, Or.inr ⟨path, served, rfl, rfl⟩⟩
    · cases hstep
  | walkEnd _ | live _ _ | touch _ | register =>
    simp only [FolderState.step] at hstep
    split at hstep
    · cases hstep
      cases hphase
    · cases hstep
  | scanList _ | scanFile _ _ | cancelScan _ | scanAbort _ =>
    simp only [FolderState.step] at hstep
    split at hstep
    · split at hstep
      · cases hstep
        cases hphase
      · cases hstep
    · cases hstep
  | scanEnd i touched =>
    simp only [FolderState.step] at hstep
    split at hstep
    · split at hstep
      · cases hstep
        cases hphase
      · cases hstep
        cases hphase
      · cases hstep
    · cases hstep

/-- `last_seen` stays while the catch-up runs on. -/
theorem movesLastSeen_walking {s s' : FolderState} (hstep : s.step lib watch e = some s')
    (hphase : s'.phase = .walking remaining since caughtUp) : movesLastSeen s e = false := by
  obtain ⟨rfl, -, -⟩ | ⟨-, before, caughtUp', hbefore, -⟩ := walking_step hstep hphase
  · rfl
  · cases e with
    | walkEnd touched =>
      simp only [FolderState.step] at hstep
      split at hstep
      · cases hstep
        cases hphase
      · cases hstep
    | touch touched => simp only [movesLastSeen, hbefore]
    | scanEnd i touched => simp only [movesLastSeen, hbefore]
    | _ => rfl

/-- An outstanding file is ingested when the catch-up comes to it, unless that fails. -/
theorem walkFile_ingests {s : FolderState} {path : FilePath} {rest : List FilePath} {served : Bool}
    (hphase : s.phase = .walking (path :: rest) since caughtUp)
    (hout : Outstanding lib watch s path) (hchanged : changedSince s.files path since = true)
    (hserved : walkFails lib watch s (.walkFile served) = false) :
    ∃ raw, ingestedBy lib watch s (.walkFile served) = some (path, raw) := by
  obtain ⟨-, -, raw, hraw, -⟩ := hout
  simp only [walkFails, hphase, hchanged, hraw, Option.isSome_some, Bool.true_and,
    Bool.not_eq_false'] at hserved
  refine ⟨raw, ?_⟩
  simp only [ingestedBy, hphase, hchanged, hserved, hraw]
  rfl

theorem neverPast_step {s' : FolderState} (h : NeverPast lib watch c.state)
    (hcautious : Cautious lib watch c e) (hstep : c.state.step lib watch e = some s') :
    NeverPast lib watch s' := by
  intro path hout
  obtain ⟨hfiles, -, hlast⟩ := step_effect hstep
  by_cases hleaves : leaves c.state e path = true
  · have hfile := of_decide_eq_true hleaves
    obtain ⟨hbefore, hother⟩ := (outstanding_step hstep hfile).mp hout
    rw [hfiles, changedSince_congr hfile, hlast]
    split
    · rename_i hmoves
      exact hcautious.1 hmoves path hbefore hother
    · exact h path hbefore
  · have hchange : ∃ files, e = .change files := by
      cases e with
      | change files => exact ⟨files, rfl⟩
      | _ => exact absurd (decide_eq_true rfl) hleaves
    obtain ⟨files, rfl⟩ := hchange
    cases hstep
    exact hcautious.2.1 files rfl path (Bool.eq_false_iff.mpr hleaves) hout

theorem endsWalk_phase {s : FolderState} (h : endsWalk s e = true) :
    (∃ touched, e = .walkEnd touched) ∧ ∃ since caughtUp, s.phase = .walking [] since caughtUp := by
  cases e with
  | walkEnd touched =>
    refine ⟨⟨touched, rfl⟩, ?_⟩
    simp only [endsWalk] at h
    split at h
    · rename_i since caughtUp hphase
      exact ⟨since, caughtUp, hphase⟩
    · cases h
  | _ => cases h

theorem nothingMissed_step (h : OnCourse lib watch c) (hcautious : Cautious lib watch c e)
    (hstep : catchUpStep lib watch c e = some c') : NothingMissed lib watch c' := by
  have hs := catchUpStep_state hstep
  obtain ⟨s', -, rfl⟩ := Option.map_eq_some_iff.mp hstep
  intro path hcaught hout
  obtain hends | hkept := Bool.or_eq_true_iff.mp hcaught
  · obtain ⟨hends, hclean⟩ := Bool.and_eq_true_iff.mp hends
    obtain ⟨⟨touched, rfl⟩, since, caughtUp, hphase⟩ := endsWalk_phase hends
    have hbefore := ((outstanding_step hs rfl).mp hout).1
    cases hunmodified : c.unmodified path with
    | true =>
      have hin := (h.ahead [] since caughtUp hphase).2 hclean path hunmodified hbefore
      cases hin
    | false => exact hcautious.2.2 hends hclean path hunmodified hbefore
  · obtain ⟨hcaught, hleaves⟩ := Bool.and_eq_true_iff.mp hkept
    have hbefore := ((outstanding_step hs (of_decide_eq_true hleaves)).mp hout).1
    exact h.nothingMissed path hcaught hbefore

theorem fileAt_of_outstanding {s : FolderState} {path : FilePath}
    (hout : Outstanding lib watch s path) : path ∈ collectFiles s.files := by
  obtain ⟨hne, hskip, raw, hraw, -⟩ := hout
  obtain ⟨x, hfile, -⟩ := Option.bind_eq_some_iff.mp hraw
  exact mem_collectFiles hfile hne hskip

/-- The catch-up keeps what it has to do ahead of it. -/
theorem ahead_step (h : OnCourse lib watch c) (hstep : catchUpStep lib watch c e = some c')
    (hphase : c'.state.phase = .walking remaining since caughtUp) :
    since = c'.state.lastSeen ∧ (c'.clean = true → ∀ path, c'.unmodified path = true →
      Outstanding lib watch c'.state path → path ∈ remaining) := by
  have hs := catchUpStep_state hstep
  have hlast := (step_effect hs).2.2
  rw [movesLastSeen_walking hs hphase, if_neg Bool.false_ne_true] at hlast
  obtain ⟨s', -, rfl⟩ := Option.map_eq_some_iff.mp hstep
  rw [hlast]
  obtain ⟨rfl, rfl, rfl⟩ | ⟨hboot, before, caughtUp', hbefore, hnext⟩ := walking_step hs hphase
  · refine ⟨rfl, fun _ path _ hout => ?_⟩
    exact fileAt_of_outstanding ((outstanding_step hs rfl).mp hout).1
  · obtain ⟨hsince, hahead⟩ := h.ahead before since caughtUp' hbefore
    refine ⟨hsince, fun hclean path hunmodified hout => ?_⟩
    rw [hboot, Bool.false_or] at hclean hunmodified
    obtain ⟨hclean, hserved⟩ := Bool.and_eq_true_iff.mp hclean
    obtain ⟨hunmodified, hleaves⟩ := Bool.and_eq_true_iff.mp hunmodified
    obtain ⟨hbehind, hother⟩ := (outstanding_step hs (of_decide_eq_true hleaves)).mp hout
    have hin := hahead hclean path hunmodified hbehind
    obtain rfl | ⟨next, served, rfl, rfl⟩ := hnext
    · exact hin
    · obtain rfl | hin := List.mem_cons.mp hin
      · have hchanged := h.neverPast path hbehind
        rw [← hsince] at hchanged
        obtain ⟨raw, hraw⟩ := walkFile_ingests hbefore hbehind hchanged
          ((Bool.not_eq_true' _).mp hserved)
        exact absurd hraw (hother raw)
      · exact hin

theorem onCourse_step (h : OnCourse lib watch c) (hcautious : Cautious lib watch c e)
    (hstep : catchUpStep lib watch c e = some c') : OnCourse lib watch c' where
  neverPast := neverPast_step h.neverPast hcautious (catchUpStep_state hstep)
  nothingMissed := nothingMissed_step h hcautious hstep
  ahead _ _ _ hphase := ahead_step h hstep hphase

theorem onCourse_start (now : Time) (files : FileTree) :
    OnCourse lib watch (CatchUp.start now files) where
  neverPast _ _ := rfl
  nothingMissed _ hcaught := by cases hcaught
  ahead _ _ _ hphase := by cases hphase

/-- Nothing that is not enabled moves `last_seen` or ends the catch-up. -/
theorem step_enabled {s : FolderState}
    (h : movesLastSeen s e = true ∨ (∃ files, e = .change files) ∨ endsWalk s e = true) :
    ∃ s', s.step lib watch e = some s' := by
  obtain hmoves | ⟨files, rfl⟩ | hends := h
  · cases e with
    | walkEnd touched =>
      simp only [movesLastSeen] at hmoves
      split at hmoves
      · rename_i since caughtUp hphase
        simp only [FolderState.step, hphase]
        exact ⟨_, rfl⟩
      · cases hmoves
    | touch touched =>
      simp only [movesLastSeen] at hmoves
      split at hmoves
      · rename_i scans touches hphase
        simp only [FolderState.step, hphase]
        exact ⟨_, rfl⟩
      · cases hmoves
    | scanEnd i touched =>
      simp only [movesLastSeen] at hmoves
      split at hmoves
      · rename_i scans touches hphase
        split at hmoves
        · rename_i cancel hscan
          simp only [FolderState.step, hphase, hscan]
          exact ⟨_, rfl⟩
        · cases hmoves
      · cases hmoves
    | _ => cases hmoves
  · exact ⟨_, rfl⟩
  · obtain ⟨⟨touched, rfl⟩, since, caughtUp, hphase⟩ := endsWalk_phase hends
    simp only [FolderState.step, hphase]
    exact ⟨_, rfl⟩

/-- The condition is necessary: a step to a state in which nothing is missed meets it. -/
theorem cautious_of_step (h : ∀ c', catchUpStep lib watch c e = some c' →
      NeverPast lib watch c'.state ∧ NothingMissed lib watch c') : Cautious lib watch c e := by
  have henabled : ∀ s', c.state.step lib watch e = some s' →
      ∃ c', catchUpStep lib watch c e = some c' ∧ c'.state = s' ∧
        ∀ path, endsWalk c.state e = true → c.clean = true → c'.caught path = true := by
    intro s' hs
    unfold catchUpStep
    rw [hs]
    refine ⟨_, rfl, rfl, fun path hends hclean => ?_⟩
    simp only [hends, hclean, Bool.and_self, Bool.true_or]
  refine ⟨fun hmoves path hout hother => ?_, fun files he path _ hout => ?_,
    fun hends hclean path _ hout => ?_⟩
  · obtain ⟨s', hs⟩ := step_enabled (Or.inl hmoves)
    obtain ⟨c', hstep, rfl, -⟩ := henabled s' hs
    obtain ⟨hfiles, -, hlast⟩ := step_effect hs
    have hsame : filesAfter c.state e = c.state.files := by
      cases e with
      | change files => cases hmoves
      | _ => rfl
    have hpast := (h c' hstep).1 path
      ((outstanding_step hs (by rw [hsame])).mpr ⟨hout, hother⟩)
    rw [hfiles, hsame, hlast, if_pos hmoves] at hpast
    exact hpast
  · subst he
    obtain ⟨c', hstep, hstate, -⟩ := henabled _ rfl
    have hpast := (h c' hstep).1 path
    rw [hstate] at hpast
    exact hpast hout
  · obtain ⟨s', hs⟩ := step_enabled (Or.inr (Or.inr hends))
    obtain ⟨c', hstep, rfl, hcaught⟩ := henabled s' hs
    obtain ⟨⟨touched, rfl⟩, -, -, hphase⟩ := endsWalk_phase hends
    refine (h c' hstep).2 path (hcaught path hends hclean) ?_
    refine (outstanding_step hs rfl).mpr ⟨hout, fun raw hraw => ?_⟩
    cases hraw

/-- Over every sequence of changes of the files, live ingests, scans, failed ingests, crashes, boots
and catch-ups: `last_seen` is never past an outstanding file and a catch-up that ends without a
failure misses nothing, in every state reached, exactly when every step is a cautious one. -/
theorem nothingMissed_iff_cautious (now : Time) (files : FileTree) (events : List FolderEvent) :
    (∀ before after c, events = before ++ after →
      run (catchUpStep lib watch) (CatchUp.start now files) before = some c →
        NeverPast lib watch c.state ∧ NothingMissed lib watch c) ↔
      Along (catchUpStep lib watch) (Cautious lib watch) (CatchUp.start now files) events := by
  constructor
  · intro h
    refine along_iff_forall_split.mpr fun before e after c hsplit hrun => ?_
    refine cautious_of_step fun c' hstep => h (before ++ [e]) after c' ?_ ?_
    · rw [hsplit, List.append_assoc, List.singleton_append]
    · refine run_append.mpr ⟨c, hrun, ?_⟩
      rw [run, hstep]
      rfl
  · rintro halong before after c rfl hrun
    have hcourse : OnCourse lib watch c :=
      run_invariant (fun _ _ _ h hcautious hstep => onCourse_step h hcautious hstep)
        (onCourse_start now files) (along_append.mp halong).1 hrun
    exact ⟨hcourse.neverPast, hcourse.nothingMissed⟩

end CatchUps

/-- Two notes, written at 10 and 20. -/
def twoNotes : FileTree :=
  .dir (.cons "a.md" (.file 10 [97]) (.cons "b.md" (.file 20 [98]) .nil))

/-- The live ingest of the first note fails, the one of the second moves `last_seen` past it, and a
crash later the catch-up ends without a failure but passes the first. -/
theorem failed_note_missed :
    ¬ ∀ (events : List FolderEvent) (c : CatchUp),
      run (catchUpStep asciiFiles notesWatch) (CatchUp.start 5 (.dir .nil)) events = some c →
        NothingMissed asciiFiles notesWatch c := by
  intro hclaim
  have hview : (run (catchUpStep asciiFiles notesWatch) (CatchUp.start 5 (.dir .nil))
      [.change twoNotes, .tick 30, .live ["a.md"] false, .live ["b.md"] true, .touch true,
        .crash, .tick 40, .boot, .walkFile true, .walkFile true, .walkEnd true]).map (fun c =>
        (c.caught ["a.md"], c.state.deliverable asciiFiles notesWatch ["a.md"],
          latestIngested c.state ["a.md"])) =
      some (true, some [97], none) := by
    decide +kernel
  obtain ⟨c, hrun, hview⟩ := Option.map_eq_some_iff.mp hview
  obtain ⟨hcaught, hview⟩ := Prod.mk.inj hview
  obtain ⟨hdeliver, hlatest⟩ := Prod.mk.inj hview
  refine hclaim _ c hrun ["a.md"] hcaught ⟨by decide, by decide, [97], hdeliver, ?_⟩
  rw [hlatest]
  exact (Option.some_ne_none [97]).symm

end Verity.Analysis
