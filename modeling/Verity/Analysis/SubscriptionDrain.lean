import Verity.Analysis.DocumentVersions
import Verity.Model.LiveReads

/-!
# When a subscription emits every row once

A poll emits at most a number of rows, and the next one resumes strictly after the last of them.
As long as no poll ends inside a group of rows that one transaction recorded, a row that stays
current and visible is emitted once, after enough polls. Where a poll does end inside a group, a
row of the group is passed over, and no later poll emits it.
-/

set_option autoImplicit false

namespace Verity.Analysis

open Verity.Foundation Verity.Model

variable {c : Chunk} {hits : List Chunk}

namespace SubscriptionDrain

/-- The subscription is for the row: it is current, visible under the scope, and watched. -/
def Wants (sub : Subscription) (c : Chunk) : Prop :=
  scopePredicate sub.scope c = true ∧ ∃ e ∈ c.entityTags, e ∈ sub.watched

instance (sub : Subscription) (c : Chunk) : Decidable (Wants sub c) :=
  inferInstanceAs (Decidable (_ ∧ _))

/-- How often a row has been emitted. -/
def emissions (s : SubscriptionState) (id : ChunkId) : Nat := (s.emitted.map Chunk.id).count id

/-- As long as it is there, the row is one that the subscription is for. -/
def StaysWanted (sub : Subscription) (id : ChunkId) (s : SubscriptionState)
    (_ : SubscriptionEvent) : Prop :=
  ∀ c ∈ s.chunks.rows, c.id = id → Wants sub c

/-- A poll does not end inside a group of rows with one instant. -/
def PollsWholeGroups (sub : Subscription) (s : SubscriptionState) (o : SubscriptionEvent) : Prop :=
  o.isPoll = true → WholeGroups Chunk.recordedAt pollLimit (sub.pending s)

section Steps

variable {sub : Subscription} {s s' : SubscriptionState}

theorem mem_pending :
    c ∈ sub.pending s ↔ c ∈ s.chunks.rows ∧ s.chunkHwm < c.recordedAt ∧ Wants sub c := by
  rw [Subscription.pending, List.mem_filter, pollSelects_eq_true, Wants]
  tauto

theorem not_wants_of_no_principals (h : sub.scope.principals = []) : ¬Wants sub c := by
  rintro ⟨hscope, -⟩
  obtain ⟨-, -, ⟨t, -, ht⟩, -⟩ := scopePredicate_eq_true.mp hscope
  rw [h] at ht
  exact absurd ht List.not_mem_nil

/-- What a step of the loop does. -/
theorem step_cases {o : SubscriptionEvent} (h : sub.step s o = some s') :
    (∃ now chunks, o = .commit now chunks ∧ s.lastCommit < now ∧
      Model.Recorded now s.chunks chunks ∧
      s' = { s with chunks := chunks, lastCommit := now }) ∨
    (∃ hits, o = .poll hits ∧ sub.scope.principals = [] ∧ s' = s) ∨
    (∃ hits, o = .poll hits ∧
      AnswersLimit (Ascending Chunk.recordedAt) pollLimit (sub.pending s) hits ∧
      s' = { s with
        chunkHwm := hits.foldl (fun mark hit => max mark hit.recordedAt) s.chunkHwm
        emitted := s.emitted ++ hits }) := by
  cases o with
  | commit now chunks =>
    simp only [Subscription.step] at h
    split at h
    · rename_i hcommit
      exact Or.inl ⟨now, chunks, rfl, hcommit.1, hcommit.2, (Option.some.inj h).symm⟩
    · cases h
  | poll hits =>
    simp only [Subscription.step] at h
    split at h
    · rename_i hnone
      exact Or.inr (Or.inl ⟨hits, rfl, List.isEmpty_iff.mp hnone, (Option.some.inj h).symm⟩)
    · split at h
      · rename_i hanswer
        exact Or.inr (Or.inr ⟨hits, rfl, hanswer, (Option.some.inj h).symm⟩)
      · cases h

/-- The mark after a poll is past the rows of the poll, and no further than the last of them. -/
theorem mark_spec (hits : List Chunk) (mark : Time) :
    mark ≤ hits.foldl (fun mark hit => max mark hit.recordedAt) mark ∧
      (∀ h ∈ hits, h.recordedAt ≤ hits.foldl (fun mark hit => max mark hit.recordedAt) mark) ∧
      (hits.foldl (fun mark hit => max mark hit.recordedAt) mark = mark ∨
        ∃ h ∈ hits, hits.foldl (fun mark hit => max mark hit.recordedAt) mark = h.recordedAt) := by
  induction hits generalizing mark with
  | nil => exact ⟨le_refl _, by simp, Or.inl rfl⟩
  | cons hit hits ih =>
    obtain ⟨hmark, hhits, hlast⟩ := ih (max mark hit.recordedAt)
    rw [List.foldl_cons]
    refine ⟨(le_max_left _ _).trans hmark, ?_, ?_⟩
    · intro h hh
      rcases List.mem_cons.mp hh with rfl | hh
      · exact (le_max_right _ _).trans hmark
      · exact hhits h hh
    · rcases hlast with hsame | ⟨h, hh, heq⟩
      · rcases max_choice mark hit.recordedAt with hmax | hmax
        · exact Or.inl (hsame.trans hmax)
        · exact Or.inr ⟨hit, List.mem_cons_self, hsame.trans hmax⟩
      · exact Or.inr ⟨h, List.mem_cons_of_mem _ hh, heq⟩

/-- The rows of an answer are rows of the table, each there once. -/
theorem eq_of_hit_id (h : AnswersLimit (Ascending Chunk.recordedAt) pollLimit (sub.pending s) hits)
    {hit : Chunk} (hhit : hit ∈ hits) (hc : c ∈ s.chunks.rows) (hid : hit.id = c.id) : hit = c :=
  List.inj_on_of_nodup_map s.chunks.ids_nodup (mem_pending.mp (h.mem hhit)).1 hc hid

theorem nodup_hits (h : AnswersLimit (Ascending Chunk.recordedAt) pollLimit (sub.pending s) hits) :
    (hits.map Chunk.id).Nodup := by
  obtain ⟨arranged, hperm, -, rfl⟩ := h
  have hpending : ((sub.pending s).map Chunk.id).Nodup :=
    s.chunks.ids_nodup.sublist (List.filter_sublist.map _)
  have harranged := ((hperm.map Chunk.id).nodup_iff).mpr hpending
  exact harranged.sublist ((List.take_sublist _ _).map _)

theorem count_hits_eq_zero {id : ChunkId} (h : ∀ hit ∈ hits, hit.id ≠ id) :
    (hits.map Chunk.id).count id = 0 := by
  rw [List.count_eq_zero]
  intro hin
  obtain ⟨hit, hhit, heq⟩ := List.mem_map.mp hin
  exact h hit hhit heq

theorem emissions_append (s : SubscriptionState) (hits : List Chunk) (id : ChunkId) (mark : Time) :
    emissions { s with chunkHwm := mark, emitted := s.emitted ++ hits } id =
      emissions s id + (hits.map Chunk.id).count id := by
  rw [emissions, emissions, List.map_append, List.count_append]

end Steps

/-! ## A row on its way -/

/-- A row that a commit adds is emitted once the mark has passed it, and not before. -/
structure Tracks (id : ChunkId) (s : SubscriptionState) : Prop where
  mark_le : s.chunkHwm ≤ s.lastCommit
  recorded_le : ∀ c ∈ s.chunks.rows, c.recordedAt ≤ s.lastCommit
  absent : s.chunks.nextId ≤ id → emissions s id = 0
  waiting : ∀ c ∈ s.chunks.rows, c.id = id → s.chunkHwm < c.recordedAt → emissions s id = 0
  passed : ∀ c ∈ s.chunks.rows, c.id = id → c.recordedAt ≤ s.chunkHwm → emissions s id = 1

namespace Tracks

variable {sub : Subscription} {id : ChunkId} {s s' : SubscriptionState}

theorem start (conn : Connection) (hnew : conn.chunks.nextId ≤ id) : Tracks id conn.start where
  mark_le := le_refl _
  recorded_le := conn.recorded_le
  absent _ := rfl
  waiting _ _ _ _ := rfl
  passed c hc hid := by
    have hlt : id < conn.chunks.nextId := hid ▸ conn.chunks.ids_lt c hc
    exact absurd hlt (not_lt.mpr hnew)

theorem commit {now : Time} {chunks : ChunkTable} (h : Tracks id s) (hnow : s.lastCommit < now)
    (hrecorded : Model.Recorded now s.chunks chunks) :
    Tracks id { s with chunks := chunks, lastCommit := now } where
  mark_le := h.mark_le.trans hnow.le
  recorded_le := by
    intro c hc
    rcases hrecorded.rows c hc with ⟨c₀, hc₀, -, hat⟩ | ⟨-, hat⟩
    · exact (hat ▸ h.recorded_le c₀ hc₀).trans hnow.le
    · exact hat.le
  absent hid := h.absent (hrecorded.nextId_le.trans hid)
  waiting := by
    intro c hc hid hwaiting
    rcases hrecorded.rows c hc with ⟨c₀, hc₀, hid₀, hat⟩ | ⟨hnew, -⟩
    · exact h.waiting c₀ hc₀ (hid₀.trans hid) (hat ▸ hwaiting)
    · exact h.absent (hid ▸ hnew)
  passed := by
    intro c hc hid hpassed
    rcases hrecorded.rows c hc with ⟨c₀, hc₀, hid₀, hat⟩ | ⟨-, hat⟩
    · exact h.passed c₀ hc₀ (hid₀.trans hid) (hat ▸ hpassed)
    · have hlate : s.chunkHwm < c.recordedAt := hat ▸ h.mark_le.trans_lt hnow
      exact absurd hlate (not_lt.mpr hpassed)

/-- A poll that cuts no group emits what is due. -/
theorem poll (h : Tracks id s)
    (hanswer : AnswersLimit (Ascending Chunk.recordedAt) pollLimit (sub.pending s) hits)
    (hwhole : WholeGroups Chunk.recordedAt pollLimit (sub.pending s))
    (hwanted : ∀ c ∈ s.chunks.rows, c.id = id → Wants sub c) :
    Tracks id { s with
      chunkHwm := hits.foldl (fun mark hit => max mark hit.recordedAt) s.chunkHwm
      emitted := s.emitted ++ hits } := by
  obtain ⟨hmark, hhits, hlast⟩ := mark_spec hits s.chunkHwm
  -- the row is among the hits exactly if the mark passes it now
  have hcount : ∀ c ∈ s.chunks.rows, c.id = id → c ∉ hits → (hits.map Chunk.id).count id = 0 := by
    intro c hc hid hnot
    apply count_hits_eq_zero
    intro hit hhit heq
    rw [eq_of_hit_id hanswer hhit hc (heq.trans hid.symm)] at hhit
    exact hnot hhit
  refine ⟨?_, h.recorded_le, ?_, ?_, ?_⟩
  · rcases hlast with hsame | ⟨hit, hhit, heq⟩
    · exact hsame.le.trans h.mark_le
    · exact heq.le.trans (h.recorded_le hit (mem_pending.mp (hanswer.mem hhit)).1)
  · intro hid
    rw [emissions_append, h.absent hid, Nat.zero_add]
    apply count_hits_eq_zero
    intro hit hhit heq
    have hlt := s.chunks.ids_lt hit (mem_pending.mp (hanswer.mem hhit)).1
    exact absurd (heq ▸ hlt) (not_lt.mpr hid)
  · intro c hc hid hwaiting
    have hnot : c ∉ hits := fun hin => absurd hwaiting (not_lt.mpr (hhits c hin))
    rw [emissions_append, h.waiting c hc hid (hmark.trans_lt hwaiting), hcount c hc hid hnot]
  · intro c hc hid hpassed
    rw [emissions_append]
    by_cases hbefore : c.recordedAt ≤ s.chunkHwm
    · have hnot : c ∉ hits := fun hin =>
        absurd (mem_pending.mp (hanswer.mem hin)).2.1 (not_lt.mpr hbefore)
      rw [h.passed c hc hid hbefore, hcount c hc hid hnot]
    · have hpending : c ∈ sub.pending s :=
        mem_pending.mpr ⟨hc, not_le.mp hbefore, hwanted c hc hid⟩
      have hin : c ∈ hits := by
        by_contra hnot
        -- the mark would stand at a row of another group, and not reach this one
        rcases hlast with hsame | ⟨hit, hhit, heq⟩
        · exact hbefore (hsame ▸ hpassed)
        · have hlt := hanswer.lt_of_omitted hwhole hhit hpending hnot
          exact absurd (heq ▸ hpassed) (not_le.mpr hlt)
      have hone : (hits.map Chunk.id).count id = 1 :=
        List.count_eq_one_of_mem (nodup_hits hanswer) (hid ▸ List.mem_map_of_mem hin)
      rw [h.waiting c hc hid (not_le.mp hbefore), hone]

theorem step {o : SubscriptionEvent} (h : Tracks id s)
    (hstep : PollsWholeGroups sub s o ∧ StaysWanted sub id s o) (hs' : sub.step s o = some s') :
    Tracks id s' := by
  rcases step_cases hs' with ⟨now, chunks, rfl, hnow, hrecorded, rfl⟩ | ⟨hits, rfl, -, rfl⟩ |
    ⟨hits, rfl, hanswer, rfl⟩
  · exact h.commit hnow hrecorded
  · exact h
  · exact h.poll hanswer (hstep.1 rfl) hstep.2

end Tracks

/-! ## Polls that go on -/

/-- A poll takes off as many pending rows as it may emit, if there are so many. -/
theorem length_pending_poll {sub : Subscription} {s s' : SubscriptionState}
    {o : SubscriptionEvent} (ho : o.isPoll = true) (h : sub.step s o = some s') :
    s'.chunks = s.chunks ∧ (sub.pending s').length ≤ (sub.pending s).length - pollLimit := by
  rcases step_cases h with ⟨now, chunks, rfl, -⟩ | ⟨hits, rfl, hnone, hsame⟩ |
    ⟨hits, rfl, hanswer, rfl⟩
  · exact absurd ho Bool.false_ne_true
  · rw [hsame]
    refine ⟨rfl, ?_⟩
    have hnil : sub.pending s = [] := List.eq_nil_iff_forall_not_mem.mpr fun c hc =>
      not_wants_of_no_principals hnone (mem_pending.mp hc).2.2
    rw [hnil]
    exact Nat.zero_le _
  · refine ⟨rfl, ?_⟩
    obtain ⟨hmark, hhits, -⟩ := mark_spec hits s.chunkHwm
    have hrest := hanswer.length_filter_le
      (p := fun c => pollSelects sub.scope sub.watched
        (hits.foldl (fun mark hit => max mark hit.recordedAt) s.chunkHwm) c) (by
          intro hit hhit
          by_contra hsel
          rw [Bool.not_eq_false, pollSelects_eq_true] at hsel
          exact absurd hsel.2.1 (not_lt.mpr (hhits hit hhit)))
    have hsame : (sub.pending s).filter (fun c => pollSelects sub.scope sub.watched
          (hits.foldl (fun mark hit => max mark hit.recordedAt) s.chunkHwm) c) =
        s.chunks.rows.filter (pollSelects sub.scope sub.watched
          (hits.foldl (fun mark hit => max mark hit.recordedAt) s.chunkHwm)) := by
      rw [Subscription.pending, List.filter_filter]
      apply List.filter_congr
      intro c _
      rw [Bool.eq_iff_iff, Bool.and_eq_true, pollSelects_eq_true, pollSelects_eq_true]
      constructor
      · exact fun hboth => hboth.1
      · exact fun hnew => ⟨hnew, hnew.1, hmark.trans_lt hnew.2.1, hnew.2.2⟩
    rw [hsame, hanswer.length] at hrest
    refine hrest.trans ?_
    omega

theorem length_pending_polls {sub : Subscription} {s s' : SubscriptionState}
    {polls : List SubscriptionEvent} (hpolls : ∀ o ∈ polls, o.isPoll = true)
    (hrun : run sub.step s polls = some s') :
    s'.chunks = s.chunks ∧
      (sub.pending s').length ≤ (sub.pending s).length - pollLimit * polls.length := by
  induction polls generalizing s with
  | nil =>
    cases hrun
    exact ⟨rfl, by simp⟩
  | cons o polls ih =>
    obtain ⟨s₁, hs₁, hrest⟩ := Option.bind_eq_some_iff.mp hrun
    obtain ⟨hchunks, hfewer⟩ := length_pending_poll (hpolls o List.mem_cons_self) hs₁
    obtain ⟨hchunks', hfewer'⟩ := ih (fun o ho => hpolls o (List.mem_cons_of_mem _ ho)) hrest
    refine ⟨hchunks'.trans hchunks, ?_⟩
    rw [List.length_cons, Nat.mul_succ]
    omega

theorem tracks_run {sub : Subscription} {id : ChunkId} {s s' : SubscriptionState}
    {os : List SubscriptionEvent} (h : Tracks id s)
    (hwhole : Along sub.step (PollsWholeGroups sub) s os)
    (hstays : Along sub.step (StaysWanted sub id) s os) (hrun : run sub.step s os = some s') :
    Tracks id s' :=
  run_invariant (fun _ _ _ htracks hboth hs' => Tracks.step htracks hboth hs') h
    (along_and hwhole hstays) hrun

/-- Where no poll ends inside a group, a row that a commit has added and that stays wanted has been
emitted once when enough polls have followed the last commit. -/
theorem bursts_emitted_once {sub : Subscription} {conn : Connection}
    {os polls : List SubscriptionEvent} {s : SubscriptionState}
    (hrun : run sub.step conn.start (os ++ polls) = some s) (hpolls : ∀ o ∈ polls, o.isPoll = true)
    (henough : s.chunks.rows.length ≤ pollLimit * polls.length)
    (hwhole : Along sub.step (PollsWholeGroups sub) conn.start (os ++ polls)) {c : Chunk}
    (hc : c ∈ s.chunks.rows) (hnew : conn.chunks.nextId ≤ c.id)
    (hstays : Along sub.step (StaysWanted sub c.id) conn.start (os ++ polls)) :
    emissions s c.id = 1 := by
  have htracks := tracks_run (Tracks.start conn hnew) hwhole hstays hrun
  obtain ⟨s₁, hrun₁, hrest⟩ := run_append.mp hrun
  obtain ⟨hchunks, hfewer⟩ := length_pending_polls hpolls hrest
  have hpassed : c.recordedAt ≤ s.chunkHwm := by
    by_contra hwaiting
    have hwants : Wants sub c := by
      cases polls with
      | nil =>
        have hpos := List.length_pos_of_mem hc
        rw [List.length_nil, Nat.mul_zero] at henough
        omega
      | cons o polls => exact ((along_append.mp hstays).2 s₁ hrun₁).1 c (hchunks ▸ hc) rfl
    have hpending := List.length_pos_of_mem (mem_pending.mpr ⟨hc, not_le.mp hwaiting, hwants⟩)
    have hle : (sub.pending s₁).length ≤ s.chunks.rows.length := by
      rw [hchunks]
      exact List.length_filter_le _ _
    omega
  exact htracks.passed c hc rfl hpassed

theorem staysWanted_of_wants {sub : Subscription} {s : SubscriptionState} (hc : c ∈ s.chunks.rows)
    (hwants : Wants sub c) (o : SubscriptionEvent) : StaysWanted sub c.id s o := by
  intro c' hc' hid
  rw [List.inj_on_of_nodup_map s.chunks.ids_nodup hc' hc hid]
  exact hwants

def acmeWatch : Subscription where
  scope := { tenantId := 1, principals := [1], entityScope := [], maxConfidentiality := .internal }
  watched := ["account:acme"]

/-- A connection before anything is recorded. -/
def earlyConnection : Connection where
  chunks := ChunkTable.empty
  connectedAt := 0
  recorded_le := by
    intro c hc
    exact absurd hc List.not_mem_nil

/-- The two notes of a call, which one transaction records. -/
def notesTable : ChunkTable :=
  let notes : List DocumentPart :=
    [⟨"plan", [1], ["account:acme"], .internal⟩, ⟨"risk", [1], ["account:acme"], .internal⟩]
  ChunkTable.empty.upsertChunks 1
    (deliveredVersion 1 "notes" "call" ⟨1, 1, 1, .mirrored, notes⟩).writes

def notesCommitted : SubscriptionState where
  chunks := notesTable
  lastCommit := 1
  chunkHwm := 0
  emitted := []

def notesDrained : SubscriptionState where
  chunks := notesTable
  lastCommit := 1
  chunkHwm := 1
  emitted := notesTable.rows

theorem step_notesCommitted :
    acmeWatch.step earlyConnection.start (.commit 1 notesTable) = some notesCommitted := by
  have hrecorded : Model.Recorded 1 ChunkTable.empty notesTable := recorded_upsertChunks _ _ _
  rw [Subscription.step, if_pos (by exact ⟨Int.zero_lt_one, hrecorded⟩)]
  rfl

theorem step_notesDrained :
    acmeWatch.step notesCommitted (.poll notesTable.rows) = some notesDrained := by
  have hanswer : PollAnswer notesTable acmeWatch.scope acmeWatch.watched 0 notesTable.rows := by
    decide +kernel
  rw [Subscription.step, if_neg (by decide), if_pos (by exact hanswer)]
  rfl

/-- Both notes are emitted once by the poll that follows. -/
theorem notes_drained :
    (notesTable.rows.map fun c => emissions notesDrained c.id) =
      notesTable.rows.map fun _ => 1 := by
  refine List.map_congr_left fun c hc => ?_
  have hwants : ∀ c ∈ notesTable.rows, Wants acmeWatch c := by decide +kernel
  have hrun : run acmeWatch.step earlyConnection.start
      ([.commit 1 notesTable] ++ [.poll notesTable.rows]) = some notesDrained := by
    rw [List.singleton_append, run, step_notesCommitted, Option.bind_some, run,
      step_notesDrained, Option.bind_some, run]
  have hwhole : Along acmeWatch.step (PollsWholeGroups acmeWatch) earlyConnection.start
      ([.commit 1 notesTable] ++ [.poll notesTable.rows]) := by
    refine ⟨fun hpoll => absurd hpoll (by decide), fun s hs => ?_⟩
    obtain rfl := Option.some.inj (step_notesCommitted.symm.trans hs)
    have hgroups : WholeGroups Chunk.recordedAt pollLimit (acmeWatch.pending notesCommitted) := by
      decide +kernel
    exact ⟨fun _ => hgroups, fun _ _ => trivial⟩
  have hstays : Along acmeWatch.step (StaysWanted acmeWatch c.id) earlyConnection.start
      ([.commit 1 notesTable] ++ [.poll notesTable.rows]) := by
    refine ⟨fun _ hnone => absurd hnone List.not_mem_nil, fun s hs => ?_⟩
    obtain rfl := Option.some.inj (step_notesCommitted.symm.trans hs)
    exact ⟨staysWanted_of_wants hc (hwants c hc) _, fun _ _ => trivial⟩
  exact bursts_emitted_once hrun (by simp [SubscriptionEvent.isPoll]) (by decide +kernel) hwhole hc
    (Nat.zero_le _) hstays

/-! ## A group that is cut -/

/-- The mark has passed whatever has been emitted. -/
def Sent (s : SubscriptionState) : Prop :=
  ∀ hit ∈ s.emitted, hit.id < s.chunks.nextId ∧
    ∀ c ∈ s.chunks.rows, c.id = hit.id → c.recordedAt ≤ s.chunkHwm

/-- The mark has passed a row that has not been emitted. -/
structure Lost (id : ChunkId) (s : SubscriptionState) : Prop where
  lt_nextId : id < s.chunks.nextId
  passed : ∀ c ∈ s.chunks.rows, c.id = id → c.recordedAt ≤ s.chunkHwm
  notEmitted : emissions s id = 0

section Lost

variable {sub : Subscription} {s s' : SubscriptionState} {o : SubscriptionEvent}

/-- A commit adds no row under an id that is given away. -/
theorem exists_of_recorded {now : Time} {before after : ChunkTable} {id : ChunkId}
    (h : Model.Recorded now before after) (hid : id < before.nextId) (hc : c ∈ after.rows)
    (heq : c.id = id) : ∃ c₀ ∈ before.rows, c₀.id = id ∧ c₀.recordedAt = c.recordedAt := by
  rcases h.rows c hc with ⟨c₀, hc₀, hid₀, hat⟩ | ⟨hnew, -⟩
  · exact ⟨c₀, hc₀, hid₀.trans heq, hat⟩
  · exact absurd (heq ▸ hid) (not_lt.mpr hnew)

theorem Sent.step (h : Sent s) (hs' : sub.step s o = some s') : Sent s' := by
  rcases step_cases hs' with ⟨now, chunks, rfl, -, hrecorded, rfl⟩ | ⟨hits, rfl, -, rfl⟩ |
    ⟨hits, rfl, hanswer, rfl⟩
  · intro hit hhit
    obtain ⟨hlt, hmark⟩ := h hit hhit
    refine ⟨hlt.trans_le hrecorded.nextId_le, fun c hc hid => ?_⟩
    obtain ⟨c₀, hc₀, hid₀, hat⟩ := exists_of_recorded hrecorded hlt hc hid
    exact hat ▸ hmark c₀ hc₀ hid₀
  · exact h
  · obtain ⟨hmark, hhits, -⟩ := mark_spec hits s.chunkHwm
    intro hit hhit
    rcases List.mem_append.mp hhit with hbefore | hnow
    · obtain ⟨hlt, hpassed⟩ := h hit hbefore
      exact ⟨hlt, fun c hc hid => (hpassed c hc hid).trans hmark⟩
    · have hrow := (mem_pending.mp (hanswer.mem hnow)).1
      refine ⟨s.chunks.ids_lt hit hrow, fun c hc hid => ?_⟩
      rw [← eq_of_hit_id hanswer hnow hc hid.symm]
      exact hhits hit hnow

theorem Lost.step {id : ChunkId} (h : Lost id s) (hs' : sub.step s o = some s') : Lost id s' := by
  rcases step_cases hs' with ⟨now, chunks, rfl, -, hrecorded, rfl⟩ | ⟨hits, rfl, -, rfl⟩ |
    ⟨hits, rfl, hanswer, rfl⟩
  · refine ⟨h.lt_nextId.trans_le hrecorded.nextId_le, fun c hc hid => ?_, h.notEmitted⟩
    obtain ⟨c₀, hc₀, hid₀, hat⟩ := exists_of_recorded hrecorded h.lt_nextId hc hid
    exact hat ▸ h.passed c₀ hc₀ hid₀
  · exact h
  · have hmark := (mark_spec hits s.chunkHwm).1
    refine ⟨h.lt_nextId, fun c hc hid => (h.passed c hc hid).trans hmark, ?_⟩
    rw [emissions_append, h.notEmitted, Nat.zero_add]
    apply count_hits_eq_zero
    intro hit hhit heq
    obtain ⟨hrow, hlate, -⟩ := mem_pending.mp (hanswer.mem hhit)
    exact absurd hlate (not_lt.mpr (h.passed hit hrow heq))

/-- A poll that ends inside a group passes over a row that is pending, and no poll emits it. -/
theorem cut_group_is_lost {conn : Connection} {os : List SubscriptionEvent}
    (hrun : run sub.step conn.start os = some s) (hs' : sub.step s (.poll hits) = some s')
    (hcut : ¬WholeGroups Chunk.recordedAt pollLimit (sub.pending s)) :
    ∃ c ∈ sub.pending s, ∀ more s'', run sub.step s' more = some s'' →
      emissions s'' c.id = 0 := by
  have hsent : Sent s :=
    run_induction (fun _ _ _ hsent hs' => Sent.step hsent hs') (fun _ h => absurd h (by
      exact List.not_mem_nil)) hrun
  rcases step_cases hs' with ⟨now, chunks, hevent, -⟩ | ⟨hits', -, hnone, -⟩ |
    ⟨hits', hevent, hanswer, rfl⟩
  · cases hevent
  · refine absurd (fun c hc => ?_) hcut
    exact absurd (mem_pending.mp hc).2.2 (not_wants_of_no_principals hnone)
  · have hnodup : (sub.pending s).Nodup :=
      (List.Nodup.of_map _ s.chunks.ids_nodup).sublist List.filter_sublist
    obtain ⟨hit, hhit, c, hc, hnot, hsame⟩ := hanswer.exists_tied_omitted hcut hnodup
    obtain ⟨hrow, hlate, -⟩ := mem_pending.mp hc
    refine ⟨c, hc, fun more s'' hmore => ?_⟩
    have hlost : Lost c.id { s with
        chunkHwm := hits'.foldl (fun mark hit => max mark hit.recordedAt) s.chunkHwm
        emitted := s.emitted ++ hits' } := by
      refine ⟨s.chunks.ids_lt c hrow, fun c' hc' hid => ?_, ?_⟩
      · rw [List.inj_on_of_nodup_map s.chunks.ids_nodup hc' hrow hid, hsame]
        exact (mark_spec hits' s.chunkHwm).2.1 hit hhit
      · have hbefore : emissions s c.id = 0 := by
          rw [emissions]
          apply count_hits_eq_zero
          intro h hin heq
          exact absurd hlate (not_lt.mpr ((hsent h hin).2 c hrow heq.symm))
        rw [emissions_append, hbefore, Nat.zero_add]
        apply count_hits_eq_zero
        intro h hin heq
        exact hnot (eq_of_hit_id hanswer hin hrow heq ▸ hin)
    exact (run_induction (fun _ _ _ hlost hs' => Lost.step hlost hs') hlost hmore).notEmitted

end Lost

/-! ## A burst of 257 rows -/

/-- An export of 257 rows that one transaction records. -/
def exportDelivery : DocumentDelivery where
  now := 1
  validFrom := 1
  provenance := 1
  aclProvenance := .mirrored
  parts := List.replicate 257 ⟨"row", [1], ["account:acme"], .internal⟩

def exportVersion : DocumentVersion 1 "export" "rows" :=
  deliveredVersion 1 "export" "rows" exportDelivery

@[irreducible] def exportTable : ChunkTable := ChunkTable.empty.upsertChunks 1 exportVersion.writes

/-- The state after the export is committed. -/
def exported : SubscriptionState where
  chunks := exportTable
  lastCommit := 1
  chunkHwm := 0
  emitted := []

theorem exportTable_spec (hc : c ∈ exportTable.rows) : c.recordedAt = 1 := by
  unfold exportTable at hc
  rcases ChunkTable.mem_upsertChunks_cases hc with ⟨c₀, hc₀, -⟩ | ⟨-, hat⟩
  · exact absurd hc₀ List.not_mem_nil
  · exact hat

theorem documentRows_exportTable :
    documentRows 1 "export" "rows" exportTable =
      exportVersion.writes.map fun w => (w.stored, none) := by
  have hnone : documentRows 1 "export" "rows" ChunkTable.empty = [] := rfl
  unfold exportTable
  rw [documentRows_upsertChunks exportVersion (by decide +kernel)
    (fun _ hr => absurd hr List.not_mem_nil), hnone, addedRows_nil]
  rfl

theorem wants_of_mem_exportTable (hc : c ∈ exportTable.rows)
    (hdoc : c.ofDocument 1 "export" "rows" = true) : Wants acmeWatch c := by
  have hrow : (toWrite c, c.validTo) ∈ documentRows 1 "export" "rows" exportTable :=
    List.mem_map_of_mem (List.mem_filter.mpr ⟨hc, hdoc⟩)
  rw [documentRows_exportTable] at hrow
  obtain ⟨w, hw, heq⟩ := List.mem_map.mp hrow
  obtain ⟨hwrite, hopen⟩ := Prod.mk.inj heq
  have hall : ∀ w ∈ exportVersion.writes, w.stored.tenantId = 1 ∧ w.stored.visibility = [1] ∧
      w.stored.entityTags = ["account:acme"] ∧ w.stored.confidentiality = .internal := by
    decide +kernel
  obtain ⟨htenant, hvisible, htags, hclass⟩ : c.tenantId = 1 ∧ c.visibility = [1] ∧
      c.entityTags = ["account:acme"] ∧ c.confidentiality = .internal := by
    have hone := hall w hw
    rw [hwrite] at hone
    exact hone
  refine ⟨scopePredicate_eq_true.mpr ⟨htenant, hopen.symm, ⟨1, ?_, List.mem_cons_self⟩, ?_⟩,
    "account:acme", ?_, List.mem_cons_self⟩
  · exact hvisible ▸ List.mem_cons_self
  · exact hclass.le
  · exact htags ▸ List.mem_cons_self

/-- All rows of the export wait for the first poll. -/
theorem length_pending_exported : pollLimit < (acmeWatch.pending exported).length := by
  have hrows : (exportTable.rows.filter fun c => c.ofDocument 1 "export" "rows").length = 257 := by
    have hlength := congrArg List.length documentRows_exportTable
    rw [documentRows, List.length_map, List.length_map] at hlength
    rw [hlength]
    decide +kernel
  have hsub : (exportTable.rows.filter fun c => c.ofDocument 1 "export" "rows").Sublist
      (acmeWatch.pending exported) := by
    have hself : (exportTable.rows.filter fun c => c.ofDocument 1 "export" "rows").filter
        (pollSelects acmeWatch.scope acmeWatch.watched 0) =
          exportTable.rows.filter fun c => c.ofDocument 1 "export" "rows" := by
      rw [List.filter_eq_self]
      intro c hc
      obtain ⟨hrow, hdoc⟩ := List.mem_filter.mp hc
      have hpending : c ∈ acmeWatch.pending exported :=
        mem_pending.mpr ⟨hrow, (exportTable_spec hrow).ge.trans_lt' (by decide),
          wants_of_mem_exportTable hrow hdoc⟩
      exact (List.mem_filter.mp hpending).2
    rw [← hself]
    exact List.filter_sublist.filter _
  have hle := hsub.length_le
  rw [hrows] at hle
  exact hle

theorem exported_cut : ¬WholeGroups Chunk.recordedAt pollLimit (acmeWatch.pending exported) := by
  intro hwhole
  have hlong := length_pending_exported
  have hat : ∀ c ∈ acmeWatch.pending exported, c.recordedAt = 1 :=
    fun c hc => exportTable_spec (mem_pending.mp hc).1
  obtain ⟨c, hc⟩ := List.exists_mem_of_length_pos (Nat.zero_lt_of_lt hlong)
  rcases hwhole c hc with hbefore | hupto
  · have hnil : (acmeWatch.pending exported).filter
        (fun b => decide (b.recordedAt < c.recordedAt)) = [] := by
      rw [List.filter_eq_nil_iff]
      intro b hb
      rw [hat b hb, hat c hc]
      decide
    rw [hnil] at hbefore
    exact absurd hbefore (by decide)
  · have hall : (acmeWatch.pending exported).filter
        (fun b => decide (b.recordedAt ≤ c.recordedAt)) = acmeWatch.pending exported := by
      rw [List.filter_eq_self]
      intro b hb
      rw [hat b hb, hat c hc]
      decide
    rw [hall] at hupto
    exact absurd hlong (not_lt.mpr hupto)

/-- There is always a poll that can be taken. -/
theorem exists_poll (sub : Subscription) (s : SubscriptionState) :
    ∃ hits s', sub.step s (.poll hits) = some s' := by
  by_cases hnone : sub.scope.principals.isEmpty = true
  · exact ⟨[], s, if_pos hnone⟩
  · refine ⟨pollChunks s.chunks sub.scope sub.watched s.chunkHwm, ?_⟩
    rw [Subscription.step, if_neg hnone, if_pos (pollChunks_answers _ _ _ _)]
    exact ⟨_, rfl⟩

/-- An upsert adds no more rows than it has writes. -/
theorem length_upsertChunks_le (t : ChunkTable) (now : Time) (writes : List ChunkWrite) :
    (t.upsertChunks now writes).rows.length ≤ t.rows.length + writes.length := by
  have hclose : ∀ (t : ChunkTable) (tenant : TenantId) (source documentId : String)
      (validFrom : Time) (p : Int → Bool),
      (t.closeWhere tenant source documentId validFrom p).rows.length = t.rows.length :=
    fun _ _ _ _ _ _ => List.length_map _
  have htails : ∀ (ws : List ChunkWrite) (t : ChunkTable), (ws.foldl (fun t w =>
      t.closeWhere w.tenantId w.source w.documentId (ChunkTable.tailOf writes w).1.stored
        ((ChunkTable.tailOf writes w).2 < ·)) t).rows.length = t.rows.length := by
    intro ws
    induction ws with
    | nil => exact fun _ => rfl
    | cons w ws ih => exact fun t => (ih _).trans (hclose _ _ _ _ _ _)
  have hwrites : ∀ (ws : List ChunkWrite) (t : ChunkTable),
      (ws.foldl (fun t w => t.upsertChunk now w) t).rows.length ≤ t.rows.length + ws.length := by
    intro ws
    induction ws with
    | nil => exact fun _ => le_rfl
    | cons w ws ih =>
      intro t
      have hone : (t.upsertChunk now w).rows.length ≤ t.rows.length + 1 := by
        rcases ChunkTable.insert_cases
            (t.closeWhere w.tenantId w.source w.documentId w.start (· = w.seq)) now w with
          ⟨-, hrows⟩ | ⟨-, hrows⟩
        · rw [ChunkTable.upsertChunk, hrows, hclose]
          exact Nat.le_succ _
        · rw [ChunkTable.upsertChunk, hrows, List.length_append, hclose]
          rfl
      have hrest := ih (t.upsertChunk now w)
      rw [List.foldl_cons, List.length_cons]
      omega
  exact (htails writes _).le.trans (hwrites writes t)

theorem step_exported : acmeWatch.step earlyConnection.start (.commit 1 exportTable) =
    some exported := by
  have hrecorded : Model.Recorded 1 ChunkTable.empty exportTable := by
    unfold exportTable
    exact recorded_upsertChunks _ _ _
  exact if_pos ⟨Int.zero_lt_one, hrecorded⟩

/-- The export of 257 rows in one transaction: however the rows are arranged, one of them is not
emitted by the two polls that follow it. -/
theorem export_not_drained :
    ¬∀ (sub : Subscription) (conn : Connection) (os polls : List SubscriptionEvent)
      (s : SubscriptionState) (c : Chunk),
      run sub.step conn.start (os ++ polls) = some s → (∀ o ∈ polls, o.isPoll = true) →
      s.chunks.rows.length ≤ pollLimit * polls.length → c ∈ s.chunks.rows →
      conn.chunks.nextId ≤ c.id →
      Along sub.step (StaysWanted sub c.id) conn.start (os ++ polls) → emissions s c.id = 1 := by
  intro hall
  obtain ⟨hits, s₁, hs₁⟩ := exists_poll acmeWatch exported
  obtain ⟨hits', s₂, hs₂⟩ := exists_poll acmeWatch s₁
  have hchunks : s₁.chunks = exportTable := (length_pending_poll rfl hs₁).1
  have hchunks' : s₂.chunks = exportTable := ((length_pending_poll rfl hs₂).1).trans hchunks
  have hcommit : run acmeWatch.step earlyConnection.start [.commit 1 exportTable] =
      some exported := by rw [run, step_exported, Option.bind_some, run]
  obtain ⟨c, hc, hlost⟩ := cut_group_is_lost hcommit hs₁ exported_cut
  obtain ⟨hrow, -, hwants⟩ := mem_pending.mp hc
  have hrun : run acmeWatch.step earlyConnection.start
      ([.commit 1 exportTable] ++ [.poll hits, .poll hits']) = some s₂ := by
    rw [run_append]
    refine ⟨exported, hcommit, ?_⟩
    rw [run, hs₁, Option.bind_some, run, hs₂, Option.bind_some, run]
  have hstays : Along acmeWatch.step (StaysWanted acmeWatch c.id) earlyConnection.start
      ([.commit 1 exportTable] ++ [.poll hits, .poll hits']) := by
    refine ⟨fun _ hnone => absurd hnone List.not_mem_nil, fun s hs => ?_⟩
    obtain rfl := Option.some.inj (step_exported.symm.trans hs)
    refine ⟨staysWanted_of_wants hrow hwants _, fun s hs => ?_⟩
    obtain rfl := Option.some.inj (hs₁.symm.trans hs)
    exact ⟨staysWanted_of_wants (hchunks ▸ hrow) hwants _, fun _ _ => trivial⟩
  have henough : s₂.chunks.rows.length ≤ pollLimit * 2 := by
    rw [hchunks']
    unfold exportTable
    exact (length_upsertChunks_le _ _ _).trans (by decide +kernel)
  have hone := hall acmeWatch earlyConnection _ _ s₂ c hrun (by simp [SubscriptionEvent.isPoll])
    henough (hchunks' ▸ hrow) (Nat.zero_le _) hstays
  have hzero := hlost [.poll hits'] s₂ (by rw [run, hs₂, Option.bind_some, run])
  rw [hzero] at hone
  exact absurd hone (by decide)

end SubscriptionDrain

end Verity.Analysis
