import Verity.Analysis.DocumentRedelivery
import Verity.Model.FolderWatch

/-!
# The files of watched folders

A file is stored as the document that its folder's name and its own name make up; the directories
between them are not part of it. So two files of one name below a folder are one document, and a
file keeps what it last delivered only while no other file is ingested under its document.
-/

set_option autoImplicit false

namespace Verity.Analysis

open Verity.Foundation
open Verity.Model
open Verity.Model.ChunkTable

/-! ## Deliveries of other documents -/

section Frame

variable {tenant tenant' : TenantId} {source source' documentId documentId' : String}

theorem ofDocument_apart {c : Chunk}
    (hapart : (tenant, source, documentId) ≠ (tenant', source', documentId'))
    (h : c.ofDocument tenant source documentId = true) :
    c.ofDocument tenant' source' documentId' = false := by
  rw [← Bool.not_eq_true]
  intro h'
  obtain ⟨rfl, rfl, rfl⟩ := ofDocument_iff.mp h
  obtain ⟨rfl, rfl, rfl⟩ := ofDocument_iff.mp h'
  exact hapart rfl

variable (hapart : (tenant, source, documentId) ≠ (tenant', source', documentId'))
include hapart

theorem documentLineage_closeWhere_apart (t : ChunkTable) (g : Time) (p : Int → Bool) :
    documentLineage tenant source documentId (t.closeWhere tenant' source' documentId' g p) =
      documentLineage tenant source documentId t := by
  refine (documentLineage_update (g := id) rfl ?_ ?_).trans (List.map_id _)
  · intro c
    split
    · unfold Chunk.close
      split <;> rfl
    · rfl
  · intro c hc
    rw [ofDocument_apart hapart hc, Bool.false_and, if_neg Bool.false_ne_true]
    rfl

theorem documentLineage_insert_apart (t : ChunkTable) (now : Time) (d : DocumentDelivery)
    (part : DocumentPart × Nat) :
    documentLineage tenant source documentId
        (t.insert now (d.write tenant' source' documentId' part)) =
      documentLineage tenant source documentId t := by
  rcases insert_cases t now (d.write tenant' source' documentId' part) with ⟨-, hrows⟩ | ⟨-, hrows⟩
  · unfold documentLineage
    rw [hrows]
  · have hrow : (t.rowOf now (d.write tenant' source' documentId' part)).ofDocument tenant source
        documentId = false :=
      ofDocument_apart (Ne.symm hapart) (ofDocument_iff.mpr ⟨rfl, rfl, rfl⟩)
    unfold documentLineage
    rw [hrows, List.filter_append, List.filter_cons,
      if_neg (by rw [hrow]; exact Bool.false_ne_true), List.filter_nil, List.append_nil]

theorem documentLineage_upsertChunks_apart (t : ChunkTable) (now : Time) (d : DocumentDelivery)
    (parts : List (DocumentPart × Nat)) :
    documentLineage tenant source documentId
        (t.upsertChunks now (parts.map (d.write tenant' source' documentId'))) =
      documentLineage tenant source documentId t := by
  have hupserts : ∀ (ps : List (DocumentPart × Nat)) (t : ChunkTable),
      documentLineage tenant source documentId
          ((ps.map (d.write tenant' source' documentId')).foldl
            (fun t w => t.upsertChunk now w) t) =
        documentLineage tenant source documentId t := by
    intro ps
    induction ps with
    | nil => exact fun t => rfl
    | cons part ps ih =>
      intro t
      rw [List.map_cons, List.foldl_cons, ih]
      unfold upsertChunk
      rw [documentLineage_insert_apart hapart]
      exact documentLineage_closeWhere_apart hapart t _ _
  have hcloses : ∀ (writes : List ChunkWrite) (ps : List (DocumentPart × Nat)) (t : ChunkTable),
      documentLineage tenant source documentId
          ((ps.map (d.write tenant' source' documentId')).foldl (fun t w =>
            t.closeWhere w.tenantId w.source w.documentId (tailOf writes w).1.stored
              ((tailOf writes w).2 < ·)) t) =
        documentLineage tenant source documentId t := by
    intro writes ps
    induction ps with
    | nil => exact fun t => rfl
    | cons part ps ih =>
      intro t
      rw [List.map_cons, List.foldl_cons, ih]
      exact documentLineage_closeWhere_apart hapart t _ _
  unfold upsertChunks closeTails
  exact (hcloses _ parts _).trans (hupserts parts t)

/-- A delivery of one document leaves the lineages of the others. -/
theorem documentLineage_deliver_apart {db db' : Database} {d : DocumentDelivery}
    (hstep : documentStep tenant' source' documentId' db (.deliver d) = some db') :
    documentLineage tenant source documentId db'.chunks =
      documentLineage tenant source documentId db.chunks := by
  cases hstep
  exact documentLineage_upsertChunks_apart hapart db.chunks d.now d d.parts.zipIdx

end Frame

/-! ## What the files delivered -/

/-- A file below a watched folder. -/
structure WatchedFile where
  tenantId : TenantId
  watchName : String
  path : FilePath
deriving DecidableEq, Repr

def watchedFile (e : FileEvent) : WatchedFile := ⟨e.watch.tenantId, e.watch.name, e.path⟩

/-- The document a file is stored as. -/
def WatchedFile.document (f : WatchedFile) : TenantId × String × String :=
  (f.tenantId, sourceName f.watchName, (fileName f.path).getD "")

/-- The deliveries so far, each with its file. -/
abbrev FileHistory := List (WatchedFile × DocumentDelivery)

variable {s s' : FileHistory × Database} {f : WatchedFile} {document : TenantId × String × String}

/-- The delivery of an event, when its file is not skipped. -/
def eventDelivery (lib : FileLibraries) (e : FileEvent) : Option DocumentDelivery :=
  (ingestFile lib e.watch e.path e.receivedAt e.file).map fun req =>
    req.delivery lib e.receivedAt e.now e.episode

/-- The deliveries after an event, and the database. -/
def fileStep (lib : FileLibraries) (s : FileHistory × Database) (e : FileEvent) :
    Option (FileHistory × Database) :=
  (folderStep lib s.2 e).map fun db =>
    (s.1 ++ (eventDelivery lib e).toList.map fun d => (watchedFile e, d), db)

/-- The parts a file delivered last. -/
def latestParts (past : FileHistory) (f : WatchedFile) : Option (List DocumentPart) :=
  (past.filter fun p => decide (p.1 = f)).getLast?.map fun p => p.2.parts

/-- The last delivery of a document that had parts. -/
def documentStanding (past : FileHistory) (document : TenantId × String × String) :
    Option Standing :=
  (past.filter fun p => decide (p.1.document = document)).foldl
    (fun st p => if p.2.parts = [] then st else some ⟨p.2.start, p.2.parts, false⟩) none

/-- A delivery is later than the last one of its document, or continues it at the same time, as
times are stored; the first one may be of any time, and only that one may be empty. -/
def Supersedes (st : Option Standing) (d : DocumentDelivery) : Prop :=
  ∀ s ∈ st, d.parts ≠ [] ∧
    (s.start < d.start ∨ s.start = d.start ∧ s.parts <+: d.parts)

instance (st : Option Standing) (d : DocumentDelivery) : Decidable (Supersedes st d) :=
  inferInstanceAs (Decidable (∀ s ∈ st, _))

/-- Another file that was ingested as the same document delivered the same parts last, and the
delivery supersedes what stands. -/
def IngestsApart (lib : FileLibraries) (s : FileHistory × Database) (e : FileEvent) : Prop :=
  ∀ d ∈ eventDelivery lib e,
    (∀ p ∈ s.1, p.1 ≠ watchedFile e → p.1.document = (watchedFile e).document →
      latestParts s.1 p.1 = some d.parts) ∧
    Supersedes (documentStanding s.1 (watchedFile e).document) d

instance (lib : FileLibraries) (s : FileHistory × Database) (e : FileEvent) :
    Decidable (IngestsApart lib s e) :=
  inferInstanceAs (Decidable (∀ d ∈ eventDelivery lib e, _))

/-- The delivery is not of a time before what stands of its document, as times are stored. -/
def InOrder (lib : FileLibraries) (s : FileHistory × Database) (e : FileEvent) : Prop :=
  ∀ d ∈ eventDelivery lib e, ∀ st ∈ documentStanding s.1 (watchedFile e).document,
    st.start ≤ d.start

/-- The current chunks of every ingested file are those it delivered last. -/
def FilesCurrent (s : FileHistory × Database) : Prop :=
  ∀ f parts, latestParts s.1 f = some parts →
    Carries (documentLineage f.document.1 f.document.2.1 f.document.2.2 s.2.chunks) parts

section Steps

variable {lib : FileLibraries} {past : FileHistory} {e : FileEvent} {d : DocumentDelivery}

/-- A file is ingested as its document. -/
theorem ingestFile_document {req : DocumentIngest}
    (h : ingestFile lib e.watch e.path e.receivedAt e.file = some req) :
    (req.tenantId, req.source, req.documentId) = (watchedFile e).document := by
  unfold ingestFile at h
  obtain ⟨name, hname, h⟩ := Option.bind_eq_some_iff.mp h
  split at h
  · exact absurd h (by simp)
  obtain ⟨file, -, h⟩ := Option.bind_eq_some_iff.mp h
  split at h
  · exact absurd h (by simp)
  obtain ⟨raw, -, h⟩ := Option.bind_eq_some_iff.mp h
  split at h
  · exact absurd h (by simp)
  cases h
  simp only [watchedFile, WatchedFile.document, hname, Option.getD_some]

theorem folderStep_of_delivery {db : Database} (h : eventDelivery lib e = some d) :
    folderStep lib db e =
      documentStep (watchedFile e).document.1 (watchedFile e).document.2.1
        (watchedFile e).document.2.2 db (.deliver d) := by
  obtain ⟨req, hreq, rfl⟩ := Option.map_eq_some_iff.mp h
  rw [folderStep, hreq, ← ingestFile_document hreq]

/-- An event delivers the document of its file, or it leaves everything as it is. -/
theorem fileStep_cases (hstep : fileStep lib s e = some s') :
    (eventDelivery lib e = none ∧ s' = s) ∨
      ∃ d db', eventDelivery lib e = some d ∧
        documentStep (watchedFile e).document.1 (watchedFile e).document.2.1
          (watchedFile e).document.2.2 s.2 (.deliver d) = some db' ∧
        s' = (s.1 ++ [(watchedFile e, d)], db') := by
  obtain ⟨db', hdb', rfl⟩ := Option.map_eq_some_iff.mp hstep
  cases hd : eventDelivery lib e with
  | none =>
    rw [folderStep, Option.map_eq_none_iff.mp hd] at hdb'
    cases hdb'
    refine .inl ⟨rfl, ?_⟩
    rw [Option.toList_none, List.map_nil, List.append_nil]
  | some d =>
    rw [folderStep_of_delivery hd] at hdb'
    exact .inr ⟨d, db', rfl, hdb', rfl⟩

theorem latestParts_append_self (f : WatchedFile) :
    latestParts (past ++ [(f, d)]) f = some d.parts := by
  rw [latestParts, List.filter_append, List.filter_cons, if_pos (decide_eq_true rfl),
    List.filter_nil, List.getLast?_append]
  rfl

theorem latestParts_append_other {f' : WatchedFile} (h : f ≠ f') :
    latestParts (past ++ [(f, d)]) f' = latestParts past f' := by
  rw [latestParts, List.filter_append, List.filter_cons, if_neg (by simpa using h),
    List.filter_nil, List.append_nil]
  rfl

theorem mem_of_latestParts {parts : List DocumentPart} (h : latestParts past f = some parts) :
    ∃ p ∈ past, p.1 = f := by
  obtain ⟨p, hp, -⟩ := Option.map_eq_some_iff.mp h
  obtain ⟨hmem, hfile⟩ := List.mem_filter.mp (List.mem_of_getLast? hp)
  exact ⟨p, hmem, of_decide_eq_true hfile⟩

theorem documentStanding_append_self (f : WatchedFile) :
    documentStanding (past ++ [(f, d)]) f.document =
      if d.parts = [] then documentStanding past f.document
      else some ⟨d.start, d.parts, false⟩ := by
  rw [documentStanding, List.filter_append, List.filter_cons, if_pos (decide_eq_true rfl),
    List.filter_nil, List.foldl_append]
  rfl

theorem documentStanding_append_other (h : f.document ≠ document) :
    documentStanding (past ++ [(f, d)]) document = documentStanding past document := by
  rw [documentStanding, List.filter_append, List.filter_cons, if_neg (by simpa using h),
    List.filter_nil, List.append_nil]
  rfl

theorem documentStanding_not_retired {s : Standing} (h : documentStanding past document = some s) :
    s.retired = false := by
  induction past using List.reverseRecOn with
  | nil => exact absurd h (by simp [documentStanding])
  | append_singleton past p ih =>
    by_cases hdoc : p.1.document = document
    · rw [← hdoc, documentStanding_append_self] at h
      split at h
      · rw [hdoc] at h
        exact ih h
      · cases h
        rfl
    · rw [documentStanding_append_other hdoc] at h
      exact ih h

/-- What stands of a document is in the table, and every file that was ingested as the document
delivered it last. -/
structure FilesStand (s : FileHistory × Database) : Prop where
  stands : ∀ f : WatchedFile,
    Stands (documentLineage f.document.1 f.document.2.1 f.document.2.2 s.2.chunks)
      (documentStanding s.1 f.document)
  latest : ∀ f parts, latestParts s.1 f = some parts →
    ((documentStanding s.1 f.document).map Standing.parts).getD [] = parts

theorem FilesStand.current (h : FilesStand s) : FilesCurrent s := by
  intro f parts hlatest
  have hstands := h.stands f
  have hparts := h.latest f parts hlatest
  cases hst : documentStanding s.1 f.document with
  | none =>
    rw [hst] at hstands hparts
    rw [← hparts, hstands]
    exact List.Perm.refl _
  | some st =>
    rw [hst] at hstands hparts
    obtain ⟨-, -, -, hstate⟩ := hstands
    rw [documentStanding_not_retired hst, if_neg Bool.false_ne_true] at hstate
    rw [← hparts]
    exact hstate.1

theorem Supersedes.takesEffect (h : Supersedes (documentStanding past document) d) :
    TakesEffect (documentStanding past document) (.deliver d) := by
  cases hst : documentStanding past document with
  | none => trivial
  | some st =>
    obtain ⟨hparts, hlater⟩ := h st hst
    unfold TakesEffect
    dsimp only
    rw [if_neg hparts]
    exact hlater.imp_right fun hsame => ⟨documentStanding_not_retired hst, hsame.2⟩

theorem supersedes_of_takesEffect
    (horder : ∀ st ∈ documentStanding past document, st.start ≤ d.start)
    (h : TakesEffect (documentStanding past document) (.deliver d)) :
    Supersedes (documentStanding past document) d := by
  intro st hst
  rw [show documentStanding past document = some st from hst] at h
  unfold TakesEffect at h
  dsimp only at h
  split at h
  · rw [documentStanding_not_retired hst] at h
    exact absurd h Bool.false_ne_true
  · rename_i hparts
    refine ⟨hparts, (horder st hst).lt_or_eq.imp_right fun heq => ⟨heq, ?_⟩⟩
    exact (h.resolve_left fun hlt => hlt.ne heq).2

/-- A step with documents of its own keeps the files. -/
theorem filesStand_step (h : FilesStand s) (hapart : IngestsApart lib s e)
    (hstep : fileStep lib s e = some s') : FilesStand s' := by
  rcases fileStep_cases hstep with ⟨-, rfl⟩ | ⟨d, db', hd, hdelivered, rfl⟩
  · exact h
  obtain ⟨past, db⟩ := s
  obtain ⟨hothers, hsupersedes⟩ := hapart d hd
  -- what stands of the document after the delivery is the delivery
  have hparts : ((documentStanding (past ++ [(watchedFile e, d)])
      (watchedFile e).document).map Standing.parts).getD [] = d.parts := by
    rw [documentStanding_append_self]
    split
    · rename_i hempty
      cases hst : documentStanding past (watchedFile e).document with
      | none => exact hempty.symm
      | some s => exact absurd hempty (hsupersedes s hst).1
    · rfl
  constructor
  · intro f
    by_cases hdoc : f.document = (watchedFile e).document
    · rw [hdoc, documentStanding_append_self]
      refine (stands_step (h.stands (watchedFile e)) ?_ hdelivered rfl).2
        hsupersedes.takesEffect
      intro s hs g hg
      cases hg
      exact (hsupersedes s hs).2.elim le_of_lt fun hsame => hsame.1.le
    · have hframe : documentLineage f.document.1 f.document.2.1 f.document.2.2 db'.chunks =
          documentLineage f.document.1 f.document.2.1 f.document.2.2 db.chunks :=
        documentLineage_deliver_apart hdoc hdelivered
      rw [documentStanding_append_other (Ne.symm hdoc), hframe]
      exact h.stands f
  · intro f parts hlatest
    by_cases hfile : f = watchedFile e
    · rw [hfile, latestParts_append_self, Option.some.injEq] at hlatest
      rw [hfile, ← hlatest]
      exact hparts
    rw [latestParts_append_other (Ne.symm hfile)] at hlatest
    by_cases hdoc : f.document = (watchedFile e).document
    · obtain ⟨p, hp, rfl⟩ := mem_of_latestParts hlatest
      have hsame := hothers p hp hfile hdoc
      rw [hlatest, Option.some.injEq] at hsame
      rw [hdoc, hsame]
      exact hparts
    · rw [documentStanding_append_other (Ne.symm hdoc)]
      exact h.latest f parts hlatest

/-- The parts that the current rows are, are read off the rows. -/
theorem parts_eq_of_carries {l : List LineageEntry} {parts parts' : List DocumentPart}
    (h : Carries l parts) (h' : Carries l parts') : parts = parts' := by
  have hperm : (placed parts.zipIdx).Perm (placed parts'.zipIdx) := h.symm.trans h'
  apply List.ext_getElem?
  intro i
  apply Option.ext
  intro part
  rw [← mem_placed, ← mem_placed]
  exact hperm.mem_iff

theorem latestParts_of_mem {p : WatchedFile × DocumentDelivery} (h : p ∈ past) :
    ∃ parts, latestParts past p.1 = some parts := by
  have hmem : p ∈ past.filter fun q => decide (q.1 = p.1) :=
    List.mem_filter.mpr ⟨h, decide_eq_true rfl⟩
  rw [latestParts, List.getLast?_eq_some_getLast (List.ne_nil_of_mem hmem)]
  exact ⟨_, rfl⟩

/-- One event, where the files stand: in order, they are current after it exactly when its file is
ingested apart from the others. -/
theorem filesCurrent_step_iff (h : FilesStand s) (hstep : fileStep lib s e = some s') :
    InOrder lib s e ∧ FilesCurrent s' ↔ IngestsApart lib s e := by
  constructor
  · rintro ⟨horder, hcurrent⟩ d hd
    rcases fileStep_cases hstep with ⟨hnone, -⟩ | ⟨d', db', hd', hdelivered, rfl⟩
    · rw [hnone] at hd
      exact absurd hd (by simp)
    rw [hd'] at hd
    cases hd
    have hcarries := hcurrent (watchedFile e) d.parts (latestParts_append_self _)
    constructor
    · intro p hp hfile hdoc
      obtain ⟨parts, hparts⟩ := latestParts_of_mem hp
      have hother := hcurrent p.1 parts ((latestParts_append_other (Ne.symm hfile)).trans hparts)
      rw [hdoc] at hother
      rw [hparts, parts_eq_of_carries hother hcarries]
    · refine supersedes_of_takesEffect (fun st hst => horder d hd' st hst) ?_
      refine (stands_step (h.stands (watchedFile e)) ?_ hdelivered rfl).1.mp ?_
      · intro st hst g hg
        cases hg
        exact horder d hd' st hst
      · intro d'' db'' heq hstep''
        cases heq
        rw [hdelivered] at hstep''
        cases hstep''
        exact hcarries
  · intro hapart
    refine ⟨fun d hd st hst => ?_, (filesStand_step h hapart hstep).current⟩
    exact (((hapart d hd).2 st hst).2).elim le_of_lt fun hsame => hsame.1.le

end Steps

/-! ## Runs -/

section Runs

variable {lib : FileLibraries} {db : Database}

theorem filesStand_nil (hnew : ∀ f : WatchedFile,
      documentLineage f.document.1 f.document.2.1 f.document.2.2 db.chunks = []) :
    FilesStand ([], db) :=
  ⟨hnew, fun _ _ h => absurd h (by simp [latestParts])⟩

/-- Along every sequence of events of watched files, nested to any depth and below any folders: the
deliveries of each document are in order and the current chunks of every file are those it
delivered last, in every state reached, exactly when every file is ingested apart from the
others. -/
theorem filesCurrent_iff_apart {events : List FileEvent} (hnew : ∀ f : WatchedFile,
      documentLineage f.document.1 f.document.2.1 f.document.2.2 db.chunks = []) :
    (Along (fileStep lib) (InOrder lib) ([], db) events ∧
      ∀ before after s, events = before ++ after →
        run (fileStep lib) ([], db) before = some s → FilesCurrent s) ↔
      Along (fileStep lib) (IngestsApart lib) ([], db) events := by
  have hsteps : (Along (fileStep lib) (InOrder lib) ([], db) events ∧
      ∀ before after s, events = before ++ after →
        run (fileStep lib) ([], db) before = some s → FilesCurrent s) ↔
      Along (fileStep lib)
        (fun s e => InOrder lib s e ∧ ∀ s', fileStep lib s e = some s' → FilesCurrent s')
        ([], db) events := by
    rw [along_iff_forall_split, along_iff_forall_split]
    constructor
    · rintro ⟨horder, hcurrent⟩ before e after s rfl hrun
      refine ⟨horder before e after s rfl hrun, fun s' hs' => ?_⟩
      refine hcurrent (before ++ [e]) after s' (by simp) ?_
      refine run_append.mpr ⟨s, hrun, ?_⟩
      rw [run, hs']
      rfl
    · intro h
      refine ⟨fun before e after s hsplit hrun => (h before e after s hsplit hrun).1, ?_⟩
      rintro before after s rfl hrun
      induction before using List.reverseRecOn with
      | nil =>
        cases hrun
        exact (filesStand_nil hnew).current
      | append_singleton before e _ =>
        obtain ⟨s₁, hbefore, hlast⟩ := run_append.mp hrun
        obtain ⟨s₂, hs₂, hend⟩ := Option.bind_eq_some_iff.mp hlast
        cases hend
        exact (h before e after s₁ (by simp) hbefore).2 s hs₂
  rw [hsteps]
  have htotal : ∀ (s : FileHistory × Database) (e : FileEvent),
      ∃ s', fileStep lib s e = some s' := by
    intro s e
    unfold fileStep folderStep
    split <;> exact ⟨_, rfl⟩
  symm
  refine along_congr (I := FilesStand)
    (fun s e s' h hapart hstep => filesStand_step h hapart hstep) ?_ (filesStand_nil hnew) events
  intro s e h
  obtain ⟨s', hstep⟩ := htotal s e
  rw [← filesCurrent_step_iff h hstep]
  refine and_congr_right fun _ => ⟨fun hcurrent s'' hs'' => ?_, fun hcurrent => hcurrent s' hstep⟩
  rw [hstep] at hs''
  cases hs''
  exact hcurrent

end Runs

/-- The codecs on ASCII, without a format to extract. -/
def asciiFiles : FileLibraries where
  fromUtf8 raw := some (String.ofList (raw.map fun b => Char.ofNat b.toNat))
  isAlphanumeric := Char.isAlphanum
  extract _ _ := none

def notesWatch : WatchRow := newWatch asciiFiles 1 1 "/srv/notes" [7] .internal

/-- A file below the folder is read with these bytes, at the time it was modified. -/
def noteEvent (path : FilePath) (time : Instant) (raw : List UInt8) : FileEvent where
  watch := notesWatch
  path := ["srv", "notes"] ++ path
  receivedAt := time
  now := time.stored
  episode := 1
  file := some ⟨raw.length, some time, some raw⟩

/-- Two files of different names, one of them edited. -/
theorem two_notes_current :
    ∃ s, run (fileStep asciiFiles) ([], Database.empty)
        [noteEvent ["a", "plan.md"] 10 [97], noteEvent ["b", "todo.md"] 20 [98],
          noteEvent ["a", "plan.md"] 30 [99]] = some s ∧
      s.1.length = 3 ∧ FilesCurrent s := by
  have hview : (run (fileStep asciiFiles) ([], Database.empty)
      [noteEvent ["a", "plan.md"] 10 [97], noteEvent ["b", "todo.md"] 20 [98],
        noteEvent ["a", "plan.md"] 30 [99]]).map (fun s => s.1.length) = some 3 := by
    decide +kernel
  obtain ⟨s, hrun, hlength⟩ := Option.map_eq_some_iff.mp hview
  refine ⟨s, hrun, hlength, ?_⟩
  exact ((@filesCurrent_iff_apart asciiFiles Database.empty _ (fun _ => rfl)).mpr
    (by decide +kernel)).2 _ [] s (List.append_nil _).symm hrun

/-- Two files of one name in different directories below the folder are one document: the second
retires the chunks of the first. -/
theorem nested_note_retired :
    ¬ ∀ (events : List FileEvent) (s : FileHistory × Database),
      run (fileStep asciiFiles) ([], Database.empty) events = some s → FilesCurrent s := by
  intro hclaim
  have hview : (run (fileStep asciiFiles) ([], Database.empty)
      [noteEvent ["a", "plan.md"] 10 [97], noteEvent ["b", "plan.md"] 20 [98]]).map (fun s =>
        (latestParts s.1 ⟨1, "notes", ["srv", "notes", "a", "plan.md"]⟩,
          currentParts (documentLineage 1 "folder:notes" "plan.md" s.2.chunks))) =
      some (some [⟨"a", [7], [], .internal⟩], [(⟨"b", [7], [], .internal⟩, 0)]) := by
    decide +kernel
  obtain ⟨s, hrun, hview⟩ := Option.map_eq_some_iff.mp hview
  obtain ⟨hlatest, hcurrent⟩ := Prod.mk.inj hview
  have hcarries := hclaim _ s hrun _ _ hlatest
  unfold Carries at hcarries
  have hsame : currentParts (documentLineage
      (WatchedFile.document ⟨1, "notes", ["srv", "notes", "a", "plan.md"]⟩).1
      (WatchedFile.document ⟨1, "notes", ["srv", "notes", "a", "plan.md"]⟩).2.1
      (WatchedFile.document ⟨1, "notes", ["srv", "notes", "a", "plan.md"]⟩).2.2 s.2.chunks) =
      [(⟨"b", [7], [], .internal⟩, 0)] := hcurrent
  rw [hsame] at hcarries
  exact absurd hcarries (by decide)

end Verity.Analysis
