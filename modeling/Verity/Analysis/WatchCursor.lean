import Mathlib.Data.Fintype.Basic
import Verity.Foundation.Run
import Verity.Model.WatchLoop

/-!
# No deletion is lost silently

What the watch owes to a membership deletion committed after the first successful connect:
it has been applied, or it comes after the durable cursor, or an open stream has yet to
deliver it, or a replica has latched `degraded` (`NotLost`).

Positions carry the argument. The cursor, a loaded cursor, an open stream and a line being
handled each mark a position of the log before which everything is settled (`Marked`,
`Settled`). A stream that starts at a cursor inherits its mark. One that starts at the head
marks a position nothing is known about; and while no cursor is stored, a stream that ends
takes the only mark with it. `CursorKept` rules these out.
-/

set_option autoImplicit false

namespace Verity.Analysis

open Verity.Model Verity.Foundation

variable {ι : Type} {parseId : String → Option (TenantId × String)}

variable {p : Phase} {pos : Position} {s : WatchLoop ι} {i : Position} {s' : WatchLoop ι} {r : ι}
  {stop : Position} {cursor : Option Position} {status : WatchStatus}

/-- Where the open stream of a replica stands: everything from there on will be delivered.
A connection that was requested counts, since it is anchored. -/
def streamAt : Phase → Option Position
  | .connecting _ start _ => some start
  | .streaming pos _ => some pos
  | _ => none

/-- Some replica has seen a gap. -/
def Latched (s : WatchLoop ι) : Prop := ∃ r, (s.replicas r).status.degraded = true

/-- A membership deletion at position `i`, committed since the first successful connect. -/
def DeletedSince (parseId : String → Option (TenantId × String)) (s : WatchLoop ι)
    (i : Position) : Prop :=
  s.since.any (fun n => decide (n ≤ i)) = true ∧
    (s.log[i]?.bind (membershipDelete parseId)).isSome = true

/-- What the watch owes to the deletion at position `i`. -/
def NotLost (s : WatchLoop ι) (i : Position) : Prop :=
  i ∈ s.applied ∨ (∃ c ∈ s.cursor, c ≤ i) ∨
    (∃ r, ∃ pos ∈ streamAt (s.phase r), pos ≤ i) ∨ Latched s

/-- Every deletion before `p` is applied, but for some that are pending. -/
def Settled (parseId : String → Option (TenantId × String)) (s : WatchLoop ι) (p : Position)
    (pending : List Position) : Prop :=
  ∀ i < p, DeletedSince parseId s i → i ∈ s.applied ∨ i ∈ pending

/-- A replica's stream may end: a cursor is stored, a gap is latched, another stream is open,
or there is nothing left to deliver. -/
def MayEnd (parseId : String → Option (TenantId × String)) (s : WatchLoop ι) (r : ι) : Prop :=
  s.since.isSome → (streamAt (s.phase r)).isSome →
    s.cursor.isSome ∨ Latched s ∨ (∃ r', r' ≠ r ∧ (streamAt (s.phase r')).isSome) ∨
      Settled parseId s s.log.length []

/-- The side condition on a run, from the first successful connect on. A stream ends without
a gap only when it may. A membership deletion is committed only while a cursor is stored, a
gap is latched or a stream is open. And a connection is requested from the head only when a
gap is latched or every deletion has been applied. -/
def CursorKept (parseId : String → Option (TenantId × String)) (s : WatchLoop ι) :
    WatchEvent ι → Prop
  | .commit update => s.since.isSome → (membershipDelete parseId update).isSome →
      s.cursor.isSome ∨ Latched s ∨ ∃ r, (streamAt (s.phase r)).isSome
  | .connect r => s.since.isSome → s.phase r = .loaded none →
      Latched s ∨ Settled parseId s s.log.length []
  | .probeOk r written => written = false → MayEnd parseId s r
  | .connectError r err _ =>
    match s.phase r with
    | .connecting cursor _ _ => connectGap err cursor = false → MayEnd parseId s r
    | _ => True
  | .closed r => MayEnd parseId s r
  | .failed r => MayEnd parseId s r
  | .errorLine r msg _ => errorLineEnd msg = .failed → MayEnd parseId s r
  | .panic r => MayEnd parseId s r
  | _ => True

/-! ## Marks -/

/-- The positions a phase knows of, each with the deletions before it that are pending. -/
def marks : Phase → List (Position × List Position)
  | .loaded (some c) => [(c, [])]
  | .connecting _ start _ => [(start, [])]
  | .streaming pos none => [(pos, [])]
  | .streaming pos (some f) => [(pos, []), (f.stop, f.todo.map Prod.fst)]
  | _ => []

def Marked (s : WatchLoop ι) (m : Position × List Position) : Prop :=
  (∃ c, s.cursor = some c ∧ m = (c, [])) ∨ ∃ r, m ∈ marks (s.phase r)

structure CursorInv (parseId : String → Option (TenantId × String)) (s : WatchLoop ι) : Prop where
  bounded : ∀ m, Marked s m → m.1 ≤ s.log.length
  settled : Latched s ∨ ∀ m, Marked s m → Settled parseId s m.1 m.2
  kept : s.since.isSome → Latched s ∨ s.cursor.isSome ∨
    (∃ r, (streamAt (s.phase r)).isSome) ∨ Settled parseId s s.log.length []

/-- A marked stream stands at a mark. -/
theorem mem_marks_streamAt (h : streamAt p = some pos) : (pos, []) ∈ marks p := by
  cases p with
  | connecting cursor start verified =>
    cases h
    simp [marks]
  | streaming pos' frame =>
    cases h
    cases frame <;> simp [marks]
  | idle => cases h
  | acquired => cases h
  | beaten => cases h
  | loaded cursor => cases h

/-- The invariant accounts for every deletion. -/
theorem CursorInv.notLost (h : CursorInv parseId s) (hdel : DeletedSince parseId s i) :
    NotLost s i := by
  have hlt : i < s.log.length := by
    by_contra hle
    have hnone : s.log[i]? = none := List.getElem?_eq_none (not_lt.mp hle)
    have hsome := hdel.2
    rw [hnone] at hsome
    simp at hsome
  have hsince : s.since.isSome := by
    have hany := hdel.1
    cases hs : s.since with
    | none => simp [hs] at hany
    | some n => rfl
  rcases h.settled with hlatched | hsettled
  · exact Or.inr (Or.inr (Or.inr hlatched))
  -- a mark at or before `i` is a cursor or a stream that covers it; one after it settles it
  have hmark : ∀ p, Marked s (p, []) → i < p → NotLost s i := by
    intro p hp hip
    rcases hsettled _ hp i hip hdel with happlied | hpending
    · exact Or.inl happlied
    · exact absurd hpending (by simp)
  rcases h.kept hsince with hlatched | hcursor | ⟨r, hr⟩ | hall
  · exact Or.inr (Or.inr (Or.inr hlatched))
  · obtain ⟨c, hc⟩ := Option.isSome_iff_exists.mp hcursor
    rcases Nat.lt_or_ge i c with hic | hci
    · exact hmark c (Or.inl ⟨c, hc, rfl⟩) hic
    · exact Or.inr (Or.inl ⟨c, hc, hci⟩)
  · obtain ⟨pos, hpos⟩ := Option.isSome_iff_exists.mp hr
    rcases Nat.lt_or_ge i pos with hip | hpi
    · exact hmark pos (Or.inr ⟨r, mem_marks_streamAt hpos⟩) hip
    · exact Or.inr (Or.inr (Or.inl ⟨r, pos, hpos, hpi⟩))
  · rcases hall i hlt hdel with happlied | hpending
    · exact Or.inl happlied
    · exact absurd hpending (by simp)

/-! ## Steps that do not touch the log -/

theorem Settled.mono {p : Position} {pending : List Position} (h : Settled parseId s p pending)
    (hlog : s'.log = s.log) (hsince : s'.since = s.since)
    (happlied : ∀ i ∈ s.applied, i ∈ s'.applied) : Settled parseId s' p pending := by
  intro i hi hdel
  have hdel' : DeletedSince parseId s i := by
    unfold DeletedSince at hdel ⊢
    rw [← hlog, ← hsince]
    exact hdel
  exact (h i hi hdel').imp_left (happlied i)

/-- The invariant after a step that leaves the log and the first connect as they were: each
mark is an old one or is settled anew, and something still keeps the deletions. -/
theorem CursorInv.of_marks (h : CursorInv parseId s) (hlog : s'.log = s.log)
    (hsince : s'.since = s.since) (happlied : ∀ i ∈ s.applied, i ∈ s'.applied)
    (hlatched : Latched s → Latched s') (hmarks : ∀ m, Marked s' m → Marked s m ∨
      (m.1 ≤ s.log.length ∧ (¬ Latched s → Settled parseId s' m.1 m.2)))
    (hkept : s.since.isSome → ¬ Latched s → Latched s' ∨ s'.cursor.isSome ∨
      (∃ r, (streamAt (s'.phase r)).isSome) ∨ Settled parseId s' s.log.length []) :
    CursorInv parseId s' where
  bounded := by
    intro m hm
    rw [hlog]
    rcases hmarks m hm with hold | ⟨hle, -⟩
    · exact h.bounded m hold
    · exact hle
  settled := by
    by_cases hl : Latched s
    · exact Or.inl (hlatched hl)
    right
    intro m hm
    rcases hmarks m hm with hold | ⟨-, hnew⟩
    · exact (h.settled.resolve_left hl m hold).mono hlog hsince happlied
    · exact hnew hl
  kept := by
    intro hs
    rw [hsince] at hs
    rw [hlog]
    by_cases hl : Latched s
    · exact Or.inl (hlatched hl)
    · exact hkept hs hl

/-- A step of replica `r` that leaves the cursor alone. Its new marks are old ones or are
settled anew; if its stream is gone, the step was one at which it may end. -/
theorem CursorInv.of_phase (h : CursorInv parseId s) (r : ι) (hlog : s'.log = s.log)
    (hsince : s'.since = s.since) (happlied : ∀ i ∈ s.applied, i ∈ s'.applied)
    (hlatched : Latched s → Latched s') (hcursor : s'.cursor = s.cursor)
    (hother : ∀ r', r' ≠ r → s'.phase r' = s.phase r')
    (hmarks : ∀ m ∈ marks (s'.phase r), Marked s m ∨
      (m.1 ≤ s.log.length ∧ (¬ Latched s → Settled parseId s' m.1 m.2)))
    (hend : (streamAt (s'.phase r)).isSome ∨ MayEnd parseId s r) : CursorInv parseId s' := by
  refine h.of_marks hlog hsince happlied hlatched ?_ ?_
  · rintro m (⟨c, hc, rfl⟩ | ⟨r', hr'⟩)
    · exact Or.inl (Or.inl ⟨c, hcursor ▸ hc, rfl⟩)
    · by_cases hrr : r' = r
      · subst hrr
        exact hmarks m hr'
      · rw [hother r' hrr] at hr'
        exact Or.inl (Or.inr ⟨r', hr'⟩)
  · intro hs hl
    rw [hcursor]
    rcases hend with hopen | hmay
    · exact Or.inr (Or.inr (Or.inl ⟨r, hopen⟩))
    have hstays : ∀ r', r' ≠ r → (streamAt (s.phase r')).isSome →
        ∃ r'', (streamAt (s'.phase r'')).isSome := by
      intro r' hne hr'
      exact ⟨r', by rw [hother r' hne]; exact hr'⟩
    have hall : Settled parseId s s.log.length [] → Settled parseId s' s.log.length [] :=
      fun hset => hset.mono hlog hsince happlied
    rcases h.kept hs with hlat | hc | ⟨r', hr'⟩ | hset
    · exact Or.inl (hlatched hlat)
    · exact Or.inr (Or.inl hc)
    · by_cases hrr : r' = r
      · -- the stream that ends is the one that kept the deletions
        subst hrr
        rcases hmay hs hr' with hc | hlat | ⟨r₁, hne, hr₁⟩ | hset
        · exact Or.inr (Or.inl hc)
        · exact absurd hlat hl
        · exact Or.inr (Or.inr (Or.inl (hstays r₁ hne hr₁)))
        · exact Or.inr (Or.inr (Or.inr (hall hset)))
      · exact Or.inr (Or.inr (Or.inl (hstays r' hrr hr')))
    · exact Or.inr (Or.inr (Or.inr (hall hset)))

/-- With a gap latched nothing is owed but the bounds. -/
theorem CursorInv.of_latched (h : CursorInv parseId s) (hlog : s'.log = s.log)
    (hlatched : Latched s') (hmarks : ∀ m, Marked s' m → Marked s m) : CursorInv parseId s' where
  bounded := by
    intro m hm
    rw [hlog]
    exact h.bounded m (hmarks m hm)
  settled := Or.inl hlatched
  kept := fun _ => Or.inl hlatched

/-- The clock, the tables, the lock and the leader row are not part of the argument. -/
theorem CursorInv.shared (h : CursorInv parseId s) (now : Time) (tables : RevocationTables)
    (lock : Option ι) (leaderRow : LeaderRow ι) :
    CursorInv parseId { s with now, tables, lock, leaderRow } :=
  ⟨h.bounded, h.settled, h.kept⟩

theorem degraded_setConnected (w : WatchStatus) (connected : Bool) :
    (w.setConnected connected).degraded = w.degraded := rfl

theorem degraded_markAdvance (w : WatchStatus) (secs : Nat) :
    (w.markAdvance secs).degraded = w.degraded := rfl

theorem degraded_fresh (w : WatchStatus) (secs : Nat) :
    ((w.setConnected true).markAdvance secs).degraded = w.degraded := rfl

theorem degraded_followerFreshness (row : LeaderRow ι) (now : Time) (secs : Nat)
    (w : WatchStatus) : (followerFreshnessFromLeader row now secs w).degraded = w.degraded := by
  unfold followerFreshnessFromLeader
  split <;> rfl

theorem mayEnd_of_not_open (h : streamAt (s.phase r) = none) : MayEnd parseId s r := by
  intro _ hopen
  rw [h] at hopen
  exact absurd hopen (by simp)

/-! ## The stream -/

/-- A commit: the log grows by one update. -/
theorem CursorInv.commit (h : CursorInv parseId s) {update : Json}
    (hsafe : CursorKept parseId s (.commit update)) :
    CursorInv parseId { s with log := s.log ++ [update] } := by
  have hold : ∀ i, i < s.log.length →
      (DeletedSince parseId { s with log := s.log ++ [update] } i ↔ DeletedSince parseId s i) := by
    intro i hi
    unfold DeletedSince
    simp only [List.getElem?_append_left hi]
  have hsettled : ∀ p pending, p ≤ s.log.length → Settled parseId s p pending →
      Settled parseId { s with log := s.log ++ [update] } p pending := by
    intro p pending hp hset i hi hdel
    exact hset i hi ((hold i (hi.trans_le hp)).mp hdel)
  refine ⟨?_, ?_, ?_⟩
  · intro m hm
    have hle : m.1 ≤ s.log.length := h.bounded m hm
    rw [List.length_append]
    exact Nat.le_add_right_of_le hle
  · rcases h.settled with hl | hset
    · exact Or.inl hl
    · exact Or.inr fun m hm => hsettled m.1 m.2 (h.bounded m hm) (hset m hm)
  · intro hs
    by_cases hdelete : (membershipDelete parseId update).isSome
    · rcases hsafe hs hdelete with hc | hl | hopen
      · exact Or.inr (Or.inl hc)
      · exact Or.inl hl
      · exact Or.inr (Or.inr (Or.inl hopen))
    · rcases h.kept hs with hl | hc | hopen | hset
      · exact Or.inl hl
      · exact Or.inr (Or.inl hc)
      · exact Or.inr (Or.inr (Or.inl hopen))
      · -- the new update is no deletion, so all deletions are still before it
        right; right; right
        intro i hi hdel
        rw [List.length_append, List.length_singleton] at hi
        rcases Nat.lt_succ_iff_lt_or_eq.mp hi with hlt | heq
        · exact hsettled _ _ (le_refl _) hset i hlt hdel
        · have hlast := hdel.2
          rw [heq] at hlast
          simp only [List.getElem?_concat_length, Option.bind_some] at hlast
          exact absurd hlast hdelete

theorem mem_deletesBetween {log : List Json} :
    i ∈ (deletesBetween parseId log pos stop).map Prod.fst ↔
      pos ≤ i ∧ i < stop ∧ (log[i]?.bind (membershipDelete parseId)).isSome := by
  simp only [deletesBetween, List.mem_map, List.mem_filterMap, List.mem_range'_1,
    Option.map_eq_some_iff]
  constructor
  · rintro ⟨_, ⟨j, ⟨hpos, hstop⟩, d, hd, rfl⟩, rfl⟩
    refine ⟨hpos, ?_, ?_⟩
    · unfold Position at *
      omega
    · rw [hd]
      rfl
  · rintro ⟨hpos, hstop, hsome⟩
    obtain ⟨d, hd⟩ := Option.isSome_iff_exists.mp hsome
    have hlt : i < pos + (stop - pos) := by
      unfold Position at *
      omega
    exact ⟨(i, d), ⟨i, ⟨hpos, hlt⟩, d, hd, rfl⟩, rfl⟩

/-- Everything before a stretch is applied, so before its end only its deletions are pending. -/
theorem Settled.deletesBetween (h : Settled parseId s pos []) :
    Settled parseId s stop ((deletesBetween parseId s.log pos stop).map Prod.fst) := by
  intro i hi hdel
  rcases Nat.lt_or_ge i pos with hlt | hge
  · rcases h i hlt hdel with happlied | hnil
    · exact Or.inl happlied
    · exact absurd hnil (by simp)
  · exact Or.inr (mem_deletesBetween.mpr ⟨hge, hi, hdel.2⟩)

/-- The cursor is stored where everything before it is applied. -/
theorem CursorInv.store (h : CursorInv parseId s) {c : Position} (hmark : Marked s (c, [])) :
    CursorInv parseId { s with cursor := some c } := by
  refine h.of_marks rfl rfl (fun _ hi => hi) id ?_ (fun _ _ => Or.inr (Or.inl rfl))
  rintro m (⟨c', hc', rfl⟩ | hphase)
  · cases hc'
    exact Or.inl hmark
  · exact Or.inl (Or.inr hphase)

/-! ## The line and the step -/

/-- A line of the stream, as the service sends it. -/
def watchFrame (updates : List Json) (token : Option String) : Json :=
  .obj [("result", .obj [("updates", .arr updates),
    ("changesThrough", .obj ((token.map fun t => ("token", Json.str t)).toList))])]

theorem parseWatchLine_watchFrame (display : Json → String) (updates : List Json)
    (token : Option String) :
    parseWatchLine parseId display (.ok (watchFrame updates token)) =
      .ok (.updates (updates.filterMap (membershipDelete parseId)) token) := by
  cases token <;> simp [parseWatchLine, watchFrame, Json.get, Json.index, Json.asArray, Json.asStr]

theorem deletesBetween_eq (log : List Json) (pos n : Nat) (hle : pos + n ≤ log.length) :
    (deletesBetween parseId log pos (pos + n)).map Prod.snd =
      ((log.drop pos).take n).filterMap (membershipDelete parseId) := by
  unfold deletesBetween
  rw [Nat.add_sub_cancel_left]
  induction n generalizing pos with
  | zero => simp
  | succ n ih =>
    have hlt : pos < log.length := by omega
    have htail := ih (pos + 1) (by omega)
    rw [List.range'_succ, List.drop_eq_getElem_cons hlt, List.take_succ_cons,
      List.filterMap_cons, List.filterMap_cons, List.getElem?_eq_getElem hlt, Option.bind_some]
    cases hdelete : membershipDelete parseId log[pos] with
    | none => simpa [hdelete] using htail
    | some d => simpa [hdelete] using htail

/-- The deletions that a `frame` step sets out to apply are those `handle_line` reads from the
line that carries the stretch of the log. -/
theorem parseWatchLine_stretch (display : Json → String) (log : List Json) (pos n : Nat)
    (hle : pos + n ≤ log.length) (token : Option String) :
    parseWatchLine parseId display (.ok (watchFrame ((log.drop pos).take n) token)) =
      .ok (.updates ((deletesBetween parseId log pos (pos + n)).map Prod.snd) token) := by
  rw [parseWatchLine_watchFrame, deletesBetween_eq log pos n hle]

/-! ## The loop of one replica -/

theorem cursorInv_start {now : Time} {log : List Json} {tables : RevocationTables}
    {holder : Option ι} {heartbeatAt : Time} {startedAt : ι → Time}
    (hcursor : ∀ c, cursor = some c → c ≤ log.length) :
    CursorInv parseId (WatchLoop.start now log tables cursor holder heartbeatAt startedAt) := by
  refine ⟨?_, Or.inr ?_, ?_⟩
  · rintro m (⟨c, hc, rfl⟩ | ⟨r, hr⟩)
    · exact hcursor c hc
    · simp [WatchLoop.start, WatchLoop.phase, marks] at hr
  · intro m _ i _ hdel
    simp [DeletedSince, WatchLoop.start] at hdel
  · intro hsince
    simp [WatchLoop.start] at hsince

theorem marked_of_phase (hphase : s.phase r = p) {m : Position × List Position} (hm : m ∈ marks p) :
    Marked s m :=
  Or.inr ⟨r, by rw [hphase]; exact hm⟩

section Steps

variable [DecidableEq ι]

theorem latched_setPhase : Latched (s.setPhase r p) ↔ Latched s := by
  simp [Latched]

theorem latched_setStatus (hstatus : status.degraded = (s.replicas r).status.degraded) :
    Latched (s.setStatus r status) ↔ Latched s := by
  unfold Latched
  refine exists_congr fun r' => ?_
  rw [WatchLoop.status_setStatus]
  by_cases h : r' = r
  · subst h
    simp [hstatus]
  · simp [h]

/-- Replica `r` changes its status, but not the latch, and goes to phase `p`. -/
theorem CursorInv.enter (h : CursorInv parseId s) (r : ι)
    (hstatus : status.degraded = (s.replicas r).status.degraded) (p : Phase)
    (hmarks : ∀ m ∈ marks p, Marked s m ∨
      (m.1 ≤ s.log.length ∧ (¬ Latched s → Settled parseId s m.1 m.2)))
    (hend : (streamAt p).isSome ∨ MayEnd parseId s r) :
    CursorInv parseId ((s.setStatus r status).setPhase r p) := by
  refine h.of_phase r rfl rfl (fun _ hi => hi) ?_ rfl ?_ ?_ ?_
  · intro hl
    exact latched_setPhase.mpr ((latched_setStatus hstatus).mpr hl)
  · intro r' hne
    rw [WatchLoop.phase_setPhase, if_neg hne, WatchLoop.phase_setStatus]
  · rw [WatchLoop.phase_setPhase_self]
    exact hmarks
  · rw [WatchLoop.phase_setPhase_self]
    exact hend

theorem setStatus_self (s : WatchLoop ι) (r : ι) : s.setStatus r (s.replicas r).status = s := by
  simp [WatchLoop.setStatus]

theorem CursorInv.move (h : CursorInv parseId s) (r : ι) (hmarks : ∀ m ∈ marks p, Marked s m ∨
      (m.1 ≤ s.log.length ∧ (¬ Latched s → Settled parseId s m.1 m.2)))
    (hend : (streamAt p).isSome ∨ MayEnd parseId s r) : CursorInv parseId (s.setPhase r p) := by
  have hmove := h.enter r rfl p hmarks hend
  rw [setStatus_self] at hmove
  exact hmove

theorem CursorInv.restatus (h : CursorInv parseId s) (r : ι)
    (hstatus : status.degraded = (s.replicas r).status.degraded) :
    CursorInv parseId (s.setStatus r status) := by
  refine h.of_marks rfl rfl (fun _ hi => hi) (latched_setStatus hstatus).mpr ?_ ?_
  · rintro m (⟨c, hc, rfl⟩ | ⟨r', hr'⟩)
    · exact Or.inl (Or.inl ⟨c, hc, rfl⟩)
    · rw [WatchLoop.phase_setStatus] at hr'
      exact Or.inl (Or.inr ⟨r', hr'⟩)
  · intro hs hl
    rcases h.kept hs with hlat | hc | ⟨r', hr'⟩ | hset
    · exact absurd hlat hl
    · exact Or.inr (Or.inl hc)
    · rw [← WatchLoop.phase_setStatus s r r' status] at hr'
      exact Or.inr (Or.inr (Or.inl ⟨r', hr'⟩))
    · exact Or.inr (Or.inr (Or.inr hset))

/-- A stream ends without a gap: everything it owed is kept elsewhere. -/
theorem CursorInv.leave (h : CursorInv parseId s) (r : ι) (hend : MayEnd parseId s r) :
    CursorInv parseId (s.relinquish r) :=
  (h.move r (by simp [marks]) (Or.inr hend)).shared _ _ _ _

theorem latched_markGap (s : WatchLoop ι) (r : ι) (cleared : Bool) :
    Latched (s.markGap r cleared) := by
  refine ⟨r, ?_⟩
  show ((s.setStatus r (s.replicas r).status.markGap).replicas r).status.degraded = true
  rw [WatchLoop.status_setStatus, if_pos rfl]
  rfl

/-- A stream ends in a gap. -/
theorem CursorInv.gap (h : CursorInv parseId s) (r : ι) (cleared : Bool) :
    CursorInv parseId ((s.markGap r cleared).relinquish r) := by
  refine h.of_latched rfl (latched_setPhase.mpr (latched_markGap s r cleared)) ?_
  rintro m (⟨c, hc, rfl⟩ | ⟨r', hr'⟩)
  · left
    change (if cleared then none else s.cursor) = some c at hc
    cases cleared
    · exact ⟨c, hc, rfl⟩
    · exact absurd hc (by simp)
  · change m ∈ marks (((s.markGap r cleared).setPhase r .idle).phase r') at hr'
    rw [WatchLoop.phase_setPhase] at hr'
    by_cases hrr : r' = r
    · simp [hrr, marks] at hr'
    · rw [if_neg hrr] at hr'
      right
      refine ⟨r', ?_⟩
      rwa [show (s.markGap r cleared).phase r' = s.phase r' from
        WatchLoop.phase_setStatus s r r' _] at hr'

/-- The request of a connection: at the loaded cursor, or at the head. -/
theorem CursorInv.connect (h : CursorInv parseId s) (hphase : s.phase r = .loaded cursor)
    (hsafe : CursorKept parseId s (.connect r)) :
    CursorInv parseId (s.setPhase r (.connecting cursor (cursor.getD s.log.length) none)) := by
  refine h.move r ?_ (Or.inl rfl)
  intro m hm
  cases cursor with
  | some c => exact Or.inl (marked_of_phase hphase hm)
  | none =>
    rw [show m = (s.log.length, []) from List.mem_singleton.mp hm]
    refine Or.inr ⟨le_refl _, fun hl => ?_⟩
    cases hsince : s.since with
    | none =>
      intro i _ hdel
      simp [DeletedSince, hsince] at hdel
    | some n => exact (hsafe (by rw [hsince]; rfl) hphase).resolve_left hl

/-- The connection is established. If it is the first, everything marked so far lies before
it. -/
theorem CursorInv.connectOk (h : CursorInv parseId s) {start : Position} {verified : Option Time}
    (hphase : s.phase r = .connecting cursor start verified)
    (hstatus : status.degraded = (s.replicas r).status.degraded) :
    CursorInv parseId { (s.setStatus r status).setPhase r (.streaming start none) with
      since := s.since.or (some s.log.length) } := by
  have hmarks : ∀ m ∈ marks (.streaming start none), Marked s m :=
    fun m hm => marked_of_phase hphase hm
  have hbase : CursorInv parseId ((s.setStatus r status).setPhase r (.streaming start none)) :=
    h.enter r hstatus _ (fun m hm => Or.inl (hmarks m hm)) (Or.inl rfl)
  cases hsince : s.since with
  | some n =>
    have heq : { (s.setStatus r status).setPhase r (.streaming start none) with
        since := some n } = (s.setStatus r status).setPhase r (.streaming start none) := by
      rw [← hsince]
      rfl
    rw [Option.or_some, Option.getD_some, heq]
    exact hbase
  | none =>
    refine ⟨hbase.bounded, Or.inr ?_, fun _ => ?_⟩
    · intro m hm i hi hdel
      -- deletions since the connect are at or after the end of the log, marks before it
      have hle : m.1 ≤ s.log.length := hbase.bounded m hm
      have hge : s.log.length ≤ i := by simpa [DeletedSince] using hdel.1
      exact absurd (hi.trans_le hle) (not_lt.mpr hge)
    · refine Or.inr (Or.inr (Or.inl ⟨r, ?_⟩))
      show (streamAt (((s.setStatus r status).setPhase r (.streaming start none)).phase r)).isSome
      rw [WatchLoop.phase_setPhase_self]
      rfl

/-- One deletion of the line is applied. -/
theorem CursorInv.apply (h : CursorInv parseId s) {d : MembershipDelete}
    {todo : List (Position × MembershipDelete)} {token : Bool}
    (hphase : s.phase r = .streaming pos (some ⟨(i, d) :: todo, stop, token⟩)) :
    CursorInv parseId { s.setPhase r (.streaming pos (some ⟨todo, stop, token⟩)) with
      applied := i :: s.applied } := by
  have hkeep : ∀ j ∈ s.applied, j ∈ i :: s.applied := fun j hj => List.mem_cons_of_mem i hj
  refine h.of_phase r rfl rfl hkeep latched_setPhase.mpr rfl ?_ ?_ ?_
  · intro r' hne
    exact (WatchLoop.phase_setPhase s r r' _).trans (if_neg hne)
  · intro m hm
    change m ∈ marks ((s.setPhase r (.streaming pos (some ⟨todo, stop, token⟩))).phase r) at hm
    rw [WatchLoop.phase_setPhase_self] at hm
    simp only [marks, List.mem_cons, List.not_mem_nil, or_false] at hm
    rcases hm with rfl | rfl
    · exact Or.inl (marked_of_phase hphase (by simp [marks]))
    · have hmark : Marked s (stop, i :: todo.map Prod.fst) :=
        marked_of_phase hphase (by simp [marks])
      have hle : stop ≤ s.log.length := h.bounded _ hmark
      refine Or.inr ⟨hle, fun hl => ?_⟩
      intro j hj hdel
      rcases h.settled.resolve_left hl _ hmark j hj hdel with happlied | hpending
      · exact Or.inl (hkeep j happlied)
      · rcases List.mem_cons.mp hpending with rfl | hrest
        · exact Or.inl List.mem_cons_self
        · exact Or.inr hrest
  · left
    show (streamAt ((s.setPhase r (.streaming pos (some ⟨todo, stop, token⟩))).phase r)).isSome
    rw [WatchLoop.phase_setPhase_self]
    rfl

/-- The line is done: the stream stands where it stops. -/
theorem CursorInv.finish (h : CursorInv parseId s) {token : Bool}
    (hphase : s.phase r = .streaming pos (some ⟨[], stop, token⟩))
    (hstatus : status.degraded = (s.replicas r).status.degraded) :
    CursorInv parseId ((s.setStatus r status).setPhase r (.streaming stop none)) := by
  refine h.enter r hstatus _ ?_ (Or.inl rfl)
  intro m hm
  rw [List.mem_singleton.mp hm]
  exact Or.inl (marked_of_phase hphase (by simp [marks]))

/-- The stream of `r` ends, for the reason `handle_line` or the transport gives. -/
theorem CursorInv.ended (h : CursorInv parseId s) (r : ι) (reason : StreamEnd) (cleared : Bool)
    (hend : reason ≠ .gap → MayEnd parseId s r) :
    CursorInv parseId (s.streamEnded r reason cleared) := by
  have hleave : MayEnd parseId s r → CursorInv parseId ((s.setConnected r false).relinquish r) :=
    fun hmay => (h.enter r (degraded_setConnected _ false) .idle (by simp [marks])
      (Or.inr hmay)).shared _ _ _ _
  cases reason with
  | closed => exact hleave (hend (by simp))
  | failed => exact hleave (hend (by simp))
  | gap => exact (h.restatus r (degraded_setConnected _ false)).gap r cleared

/-- Every step keeps the invariant, if it meets the side condition. -/
theorem CursorInv.step {e : WatchEvent ι} (h : CursorInv parseId s) (hsafe : CursorKept parseId s e)
    (hstep : s.step parseId e = some s') : CursorInv parseId s' := by
  -- a replica without a stream may go anywhere that marks nothing
  have hidle : ∀ r p, streamAt (s.phase r) = none → marks p = [] →
      CursorInv parseId (s.setPhase r p) := by
    intro r p hnone hmarks
    exact h.move r (by simp [hmarks]) (Or.inr (mayEnd_of_not_open hnone))
  cases WatchLoop.step_cases hstep with
  | commit update => exact h.commit hsafe
  | tick now hle => exact h.shared _ _ _ _
  | writeTables tables => exact h.shared _ _ _ _
  | loseLock r => exact h.shared _ _ _ _
  | acquire r hphase => exact (hidle r .acquired (by rw [hphase]; rfl) rfl).shared _ _ _ _
  | poll r => exact h.restatus r (degraded_followerFreshness _ _ _ _)
  | heartbeatWritten r hphase =>
    exact (hidle r .beaten (by rw [hphase]; rfl) rfl).shared _ _ _ _
  | heartbeatError r hphase => exact hidle r .beaten (by rw [hphase]; rfl) rfl
  | loadCursor r hphase =>
    refine h.move r ?_ (Or.inr (mayEnd_of_not_open (by rw [hphase]; rfl)))
    intro m hm
    cases hcursor : s.cursor with
    | none => simp [hcursor, marks] at hm
    | some c =>
      rw [hcursor] at hm
      exact Or.inl (Or.inl ⟨c, hcursor, List.mem_singleton.mp hm⟩)
  | loadError r hphase => exact h.leave r (mayEnd_of_not_open (by rw [hphase]; rfl))
  | connect r cursor hphase => exact h.connect hphase hsafe
  | probeWritten r cursor start verified hphase =>
    have hmove : CursorInv parseId ((s.markFresh r).setPhase r
        (.connecting cursor start (some s.now))) :=
      h.enter r (degraded_fresh _ _) _ (fun m hm => Or.inl (marked_of_phase hphase hm))
        (Or.inl rfl)
    exact hmove.shared _ _ _ _
  | probeUnwritten r cursor start verified hphase =>
    have hmove : CursorInv parseId ((s.markFresh r).setPhase r .idle) :=
      h.enter r (degraded_fresh _ _) .idle (by simp [marks]) (Or.inr (hsafe rfl))
    exact hmove.shared _ _ _ _
  | probeError r cursor start verified hphase =>
    exact h.enter r (degraded_setConnected _ false) _
      (fun m hm => Or.inl (marked_of_phase hphase hm)) (Or.inl rfl)
  | connectOk r cursor start verified hphase =>
    exact (h.connectOk hphase (degraded_fresh _ (s.secsSinceStart r))).shared _ _ _ _
  | connectGap r err cleared => exact h.gap r cleared
  | connectError r err cleared cursor start verified hphase hgap =>
    simp only [CursorKept, hphase] at hsafe
    exact h.leave r (hsafe hgap)
  | beat r pos frame hphase =>
    exact (h.shared _ _ _ _).restatus r (degraded_markAdvance _ _)
  | frame r stop token pos hphase hstop =>
    refine h.move r ?_ (Or.inl rfl)
    intro m hm
    have hmark : Marked s (pos, []) := marked_of_phase hphase (by simp [marks])
    simp only [marks, List.mem_cons, List.not_mem_nil, or_false] at hm
    rcases hm with rfl | rfl
    · exact Or.inl hmark
    · exact Or.inr ⟨hstop, fun hl => (h.settled.resolve_left hl _ hmark).deletesBetween⟩
  | apply r db principals pos i stop d todo token tables rows hphase happly =>
    exact (h.apply hphase).shared _ _ _ _
  | finishStored r pos stop hphase =>
    exact (h.finish hphase (degraded_markAdvance _ (s.secsSinceStart r))).store
      (marked_of_phase (WatchLoop.phase_setPhase_self _ r _) (by simp [marks]))
  | finish r pos stop hphase =>
    have hfinish := h.finish hphase rfl
    rw [setStatus_self] at hfinish
    exact hfinish
  | closed r => exact h.ended r .closed false fun _ => hsafe
  | failed r => exact h.ended r .failed false fun _ => hsafe
  | errorLine r msg cleared =>
    refine h.ended r (errorLineEnd msg) cleared fun hne => hsafe ?_
    unfold errorLineEnd at hne ⊢
    split at hne
    · exact absurd rfl hne
    · rename_i hrejected
      exact if_neg hrejected
  | panic r => exact h.leave r hsafe

/-- Take any log, any tombstones, and a cursor into the log or none, and any run of any number
of replicas that meets the side condition `CursorKept`: commits, closures, failures, refused
cursors, panics and leader changes in any order. In every state reached, each membership
deletion since the first successful connect has been applied, comes after the durable cursor
or on an open stream, or a gap is latched. -/
theorem no_delete_lost_silently {now : Time} {log : List Json} {tables : RevocationTables}
    {cursor : Option Position} {holder : Option ι} {heartbeatAt : Time} {startedAt : ι → Time}
    (hcursor : ∀ c, cursor = some c → c ≤ log.length) {events : List (WatchEvent ι)}
    {s : WatchLoop ι} (hsafe : Along (WatchLoop.step parseId) (CursorKept parseId)
      (WatchLoop.start now log tables cursor holder heartbeatAt startedAt) events)
    (hrun : run (WatchLoop.step parseId)
      (WatchLoop.start now log tables cursor holder heartbeatAt startedAt) events = some s)
    {i : Position} (hdel : DeletedSince parseId s i) : NotLost s i := by
  have hinv : CursorInv parseId s :=
    run_invariant (fun _ _ _ h hs hstep => h.step hs hstep) (cursorInv_start hcursor) hsafe hrun
  exact hinv.notLost hdel

end Steps

/-! ## Two runs -/

section Runs

instance [Fintype ι] (s : WatchLoop ι) : Decidable (Latched s) :=
  inferInstanceAs (Decidable (∃ r, (s.replicas r).status.degraded = true))

instance (s : WatchLoop ι) (i : Position) : Decidable (DeletedSince parseId s i) :=
  inferInstanceAs (Decidable (_ ∧ _))

instance (s : WatchLoop ι) (p : Position) (pending : List Position) :
    Decidable (Settled parseId s p pending) :=
  inferInstanceAs (Decidable (∀ i < p, DeletedSince parseId s i → i ∈ s.applied ∨ i ∈ pending))

instance [Fintype ι] (s : WatchLoop ι) (i : Position) : Decidable (NotLost s i) :=
  inferInstanceAs (Decidable (_ ∨ (∃ c ∈ s.cursor, c ≤ i) ∨
    (∃ r, ∃ pos ∈ streamAt (s.phase r), pos ≤ i) ∨ _))

instance [Fintype ι] [DecidableEq ι] (s : WatchLoop ι) (r : ι) : Decidable (MayEnd parseId s r) :=
  inferInstanceAs (Decidable (_ → _ → _ ∨ _ ∨
    (∃ r', r' ≠ r ∧ (streamAt (s.phase r')).isSome) ∨ _))

instance decidableCursorKept [Fintype ι] [DecidableEq ι] (s : WatchLoop ι) :
    (e : WatchEvent ι) → Decidable (CursorKept parseId s e)
  | .commit _ => inferInstanceAs (Decidable (_ → _ → _ ∨ _ ∨
      ∃ r, (streamAt (s.phase r)).isSome = true))
  | .connect _ => inferInstanceAs (Decidable (_ → _ → _ ∨ _))
  | .probeOk _ _ => inferInstanceAs (Decidable (_ → _))
  | .connectError r err _ =>
    match h : s.phase r with
    | .connecting cursor _ _ =>
      decidable_of_iff (connectGap err cursor = false → MayEnd parseId s r)
        (by simp only [CursorKept, h])
    | .idle | .acquired | .beaten | .loaded _ | .streaming _ _ =>
      isTrue (by simp only [CursorKept, h])
  | .closed r => inferInstanceAs (Decidable (MayEnd parseId s r))
  | .failed r => inferInstanceAs (Decidable (MayEnd parseId s r))
  | .errorLine _ _ _ => inferInstanceAs (Decidable (_ → _))
  | .panic r => inferInstanceAs (Decidable (MayEnd parseId s r))
  | .tick _ | .writeTables _ | .loseLock _ | .acquire _ | .poll _ | .heartbeat _ _
  | .loadCursor _ | .loadError _ | .probeError _ | .connectOk _ | .beat _ | .frame _ _ _
  | .apply _ _ _ | .finish _ => isTrue trivial

/-- The object ids of one tenant's sales group and of its member alice. -/
def salesId : String := "00000000-0000-0000-0000-000000000001_sales"

def aliceId : String := "00000000-0000-0000-0000-000000000001_alice"

def parseSales (oid : String) : Option (TenantId × String) :=
  if oid = salesId then some (1, "sales")
  else if oid = aliceId then some (1, "alice")
  else none

/-- The update in which alice leaves the sales group. -/
def aliceLeavesSales : Json :=
  .obj [("operation", .str "OPERATION_DELETE"),
    ("relationship", .obj [
      ("resource", .obj [("objectType", .str "group"), ("objectId", .str salesId)]),
      ("relation", .str "member"),
      ("subject", .obj [("object", .obj [("objectType", .str "user"),
        ("objectId", .str aliceId)])])])]

def salesTokens : PrincipalTable := ⟨[⟨1, "group:sales", 7⟩], by decide, by decide⟩

/-- A fresh deployment: an empty log, no cursor, nobody has led. -/
def freshWatch (ι : Type) : WatchLoop ι :=
  WatchLoop.start 0 [] RevocationTables.empty none none 0 fun _ => 0

def connectFirst {ι : Type} (r : ι) : List (WatchEvent ι) :=
  [.acquire r, .heartbeat r true, .loadCursor r, .connect r, .connectOk r]

/-- Replica `false` stores a cursor before its stream is closed, after a second deletion was
committed; replica `true` takes over. -/
def closedAfterCursor : List (WatchEvent Bool) :=
  connectFirst false ++
    [.commit aliceLeavesSales, .frame false 1 true, .apply false (exactService []) salesTokens,
      .finish false, .commit aliceLeavesSales, .closed false] ++
    connectFirst true

/-- The follower that takes over resumes at the stored cursor, and neither of the two deletions is
lost. -/
theorem takeover_resumes_at_cursor :
    ∃ s, run (WatchLoop.step parseSales) (freshWatch Bool) closedAfterCursor = some s ∧
      DeletedSince parseSales s 0 ∧ DeletedSince parseSales s 1 ∧ NotLost s 0 ∧ NotLost s 1 := by
  have hsafe : Along (WatchLoop.step parseSales) (CursorKept parseSales) (freshWatch Bool)
      closedAfterCursor := by decide +kernel
  have hrun : ∃ s ∈ run (WatchLoop.step parseSales) (freshWatch Bool) closedAfterCursor,
      DeletedSince parseSales s 0 ∧ DeletedSince parseSales s 1 := by decide +kernel
  obtain ⟨s, hs, hzero, hone⟩ := hrun
  have hcursor : ∀ c : Position, none = some c → c ≤ ([] : List Json).length := by simp
  exact ⟨s, hs, hzero, hone, no_delete_lost_silently hcursor hsafe hs hzero,
    no_delete_lost_silently hcursor hsafe hs hone⟩

/-- The stream is closed before the first line, and the loop connects again. -/
def closedBeforeCursor : List (WatchEvent Unit) :=
  connectFirst () ++ [.commit aliceLeavesSales, .closed ()] ++ connectFirst ()

/-- The service commits a deletion while the first stream is open, and closes the stream
before it delivers it. No cursor is stored, so the loop connects from the head: the deletion
is not applied, not ahead of any stream, and no gap is latched. -/
theorem closed_first_stream_loses_delete :
    ∃ s ∈ run (WatchLoop.step parseSales) (freshWatch Unit) closedBeforeCursor,
      s.since = some 0 ∧ DeletedSince parseSales s 0 ∧ ¬ NotLost s 0 := by
  decide +kernel

end Runs

end Verity.Analysis
