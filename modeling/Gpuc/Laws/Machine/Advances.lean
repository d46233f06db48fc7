import Gpuc.Laws.Machine.Passes

/-!
# What a step of a pass does

`Advances` is said of every step but the one that reaps. The steps of a pass are made of four writes (a
runner's, a job failed in the queue, a launch, a stop), and each keeps what a pass keeps.
-/

set_option autoImplicit false

namespace Gpuc.Host

open Gpuc.Basis

namespace Service

variable {s t u : Service} {inUse : List Uuid}

/-- **A step that reaps nothing**: every entry stays, what is on its way stays so, no attempt begins to
leave but those of the jobs stopped, and no job is queued that was not. -/
structure Advances (s t : Service) (stopped : List JobId) : Prop where
  same : Same s t
  entries : ∀ jobId entry, s.dispatcher.running.get? jobId = some entry →
    t.dispatcher.running.get? jobId = some entry
  leaves : ∀ jobId entry, s.dispatcher.running.get? jobId = some entry →
    Dispatcher.leaving s.jobs jobId entry = true → Dispatcher.leaving t.jobs jobId entry = true
  stops : ∀ jobId entry, t.dispatcher.running.get? jobId = some entry →
    Dispatcher.leaving t.jobs jobId entry = true →
    (s.dispatcher.running.get? jobId = some entry ∧
      Dispatcher.leaving s.jobs jobId entry = true) ∨ jobId ∈ stopped
  queues : ∀ jobId, t.Queued jobId → s.Queued jobId

namespace Advances

theorem refl (s : Service) : Advances s s [] :=
  ⟨.refl s, fun _ _ h => h, fun _ _ _ h => h, fun _ _ h h' => .inl ⟨h, h'⟩, fun _ h => h⟩

theorem trans {stopped stopped' : List JobId} (hst : Advances s t stopped)
    (htu : Advances t u stopped') : Advances s u (stopped ++ stopped') where
  same := hst.same.trans htu.same
  entries jobId entry h := htu.entries jobId entry (hst.entries jobId entry h)
  leaves jobId entry h hleaving :=
    htu.leaves jobId entry (hst.entries jobId entry h) (hst.leaves jobId entry h hleaving)
  stops jobId entry h hleaving := by
    rcases htu.stops jobId entry h hleaving with ⟨ht, hleaving⟩ | hin
    · exact (hst.stops jobId entry ht hleaving).imp_right (List.mem_append_left _)
    · exact .inr (List.mem_append_right _ hin)
  queues jobId h := hst.queues jobId (htu.queues jobId h)

/-- A step that leaves the jobs and the entries alone. -/
theorem of_eq (hjobs : t.jobs = s.jobs) (hrunning : t.dispatcher.running = s.dispatcher.running)
    (hconfig : t.dispatcher.config = s.dispatcher.config)
    (hcards : t.dispatcher.cards = s.dispatcher.cards)
    (htable : t.dispatcher.tableError = s.dispatcher.tableError) : Advances s t [] := by
  refine ⟨⟨hconfig, hcards, htable, fun jobId => by rw [hjobs]⟩, ?_, ?_, ?_, ?_⟩
  · intro jobId entry h
    rwa [hrunning]
  · intro jobId entry _ h
    rwa [hjobs]
  · intro jobId entry h hleaving
    rw [hrunning] at h
    rw [hjobs] at hleaving
    exact .inl ⟨h, hleaving⟩
  · rintro jobId ⟨hnew, hqueued⟩
    rw [hrunning] at hnew
    rw [hjobs] at hqueued
    exact ⟨hnew, hqueued⟩

/-- What is taken stays taken. -/
theorem taken {stopped : List JobId} (h : Advances s t stopped) {c : Uuid} (hc : c ∈ s.taken) :
    c ∈ t.taken := by
  obtain ⟨jobId, entry, hentry, hmem⟩ := mem_taken.mp hc
  exact mem_taken.mpr ⟨jobId, entry, h.entries jobId entry hentry, hmem⟩

theorem returning {stopped : List JobId} (h : Advances s t stopped) {c : Uuid}
    (hc : s.Returning c) : t.Returning c := by
  obtain ⟨jobId, entry, hentry, hleaving, hmem⟩ := hc
  exact ⟨jobId, entry, h.entries jobId entry hentry, h.leaves jobId entry hentry hleaving, hmem⟩

theorem keys {stopped : List JobId} (h : Advances s t stopped) {jobId : JobId}
    (hkey : jobId ∈ s.dispatcher.running.keys) : jobId ∈ t.dispatcher.running.keys := by
  obtain ⟨entry, hentry⟩ := Dict.mem_keys.mp hkey
  exact Dict.mem_keys.mpr ⟨entry, h.entries jobId entry hentry⟩

end Advances

/-! ## A job's state is replaced -/

theorem leaving_eq {jobs : Jobs} {jobId : JobId} {dir : JobDir} (h : jobs.get? jobId = some dir)
    (entry : Running) :
    Dispatcher.leaving jobs jobId entry
      = if dir.state.status = .running then dir.state.intent.isSome
        else ¬ (dir.state.status = .queued ∧ dir.state.attempt = entry.attempt) := by
  simp only [Dispatcher.leaving, h]

/-- The state of another job says nothing of this one. -/
theorem leaving_set {jobs : Jobs} {jobId j : JobId} {dir : JobDir} (h : j ≠ jobId)
    (entry : Running) :
    Dispatcher.leaving (jobs.set jobId dir) j entry = Dispatcher.leaving jobs j entry := by
  simp only [Dispatcher.leaving, Dict.get?_set, if_neg h]

/-- **The state one job is left with**, in the dispatcher's terms: the same priority; leaving if it
was, and if it was not only when the job is stopped; a running one counted; a queued one asked
nothing. -/
structure Writes (s : Service) (jobId : JobId) (dir : JobDir) (state : JobState)
    (stopped : List JobId) : Prop where
  found : s.jobs.get? jobId = some dir
  priority : state.priority = dir.state.priority
  leaving : ∀ entry, s.dispatcher.running.get? jobId = some entry →
    Dispatcher.leaving (s.jobs.set jobId { dir with state := state }) jobId entry
      = Dispatcher.leaving s.jobs jobId entry ∨
    (jobId ∈ stopped ∧
      Dispatcher.leaving (s.jobs.set jobId { dir with state := state }) jobId entry = true)
  queued : state.status = .queued → jobId ∈ s.dispatcher.running.keys ∨ dir.state.status = .queued
  counted : state.status = .running → ∃ entry, s.dispatcher.running.get? jobId = some entry ∧
    state.gpus = entry.gpus ∧ state.attempt = entry.attempt
  unasked : state.status = .queued → state.intent = none

namespace Writes
variable {jobId : JobId} {dir : JobDir} {state : JobState} {stopped : List JobId}
  (hwrites : Writes s jobId dir state stopped)
  (hjobs : t.jobs = s.jobs.set jobId { dir with state := state })
  (hrunning : t.dispatcher.running = s.dispatcher.running)
  (hsame : t.dispatcher.config = s.dispatcher.config ∧
    t.dispatcher.cards = s.dispatcher.cards ∧ t.dispatcher.tableError = s.dispatcher.tableError)
include hwrites hjobs hrunning hsame

theorem advances : Advances s t stopped where
  same := .of_set hwrites.found hwrites.priority hjobs hsame
  entries j entry h := by rwa [hrunning]
  leaves j entry h hleaving := by
    rw [hjobs]
    by_cases hj : j = jobId
    · subst hj
      rcases hwrites.leaving entry h with heq | ⟨-, hleaves⟩
      · rwa [heq]
      · exact hleaves
    · rwa [leaving_set hj]
  stops j entry h hleaving := by
    rw [hrunning] at h
    rw [hjobs] at hleaving
    by_cases hj : j = jobId
    · subst hj
      rcases hwrites.leaving entry h with heq | ⟨hin, -⟩
      · exact .inl ⟨h, heq ▸ hleaving⟩
      · exact .inr hin
    · rw [leaving_set hj] at hleaving
      exact .inl ⟨h, hleaving⟩
  queues j h := by
    obtain ⟨hnew, dir', hdir', hqueued⟩ := h
    rw [hrunning] at hnew
    rw [hjobs, Dict.get?_set] at hdir'
    split at hdir'
    · next hj =>
      subst hj
      obtain rfl := Option.some.inj hdir'
      exact ⟨hnew, dir, hwrites.found, (hwrites.queued hqueued).resolve_left hnew⟩
    · exact ⟨hnew, dir', hdir', hqueued⟩

theorem kept (hkept : s.Kept) : t.Kept where
  cards := by rw [hsame.2.1]; exact hkept.cards
  answers := by rw [hsame.2.2]; exact hkept.answers
  known j entry h := by
    rw [hrunning] at h
    exact (hwrites.advances hjobs hrunning hsame).same.keys.mpr (hkept.known j entry h)
  once j entry h := hkept.once j entry (hrunning ▸ h)
  apart j j' entry entry' c h h' := hkept.apart j j' entry entry' c (hrunning ▸ h) (hrunning ▸ h')
  counted j dir' hdir' hstatus := by
    rw [hrunning]
    rw [hjobs, Dict.get?_set] at hdir'
    split at hdir'
    · next hj =>
      subst hj
      obtain rfl := Option.some.inj hdir'
      exact hwrites.counted hstatus
    · exact hkept.counted j dir' hdir' hstatus
  wanted j entry h hne := by
    rw [(hwrites.advances hjobs hrunning hsame).same.wantsCards]
    exact hkept.wanted j entry (hrunning ▸ h) hne
  unasked j dir' hdir' hstatus := by
    rw [hjobs, Dict.get?_set] at hdir'
    split at hdir'
    · obtain rfl := Option.some.inj hdir'
      exact hwrites.unasked hstatus
    · exact hkept.unasked j dir' hdir' hstatus

omit hwrites hrunning hsame in
/-- A write on a job with a runner leaves the listing the queue. -/
theorem listed (hdispatcher : t.dispatcher = s.dispatcher)
    (hkey : jobId ∈ s.dispatcher.running.keys) (hlisted : s.Listed inUse) : t.Listed inUse := by
  have htaken : t.taken = s.taken := by rw [taken, hdispatcher, taken]
  refine ⟨?_, fun entry hnew => ?_, fun cards hcards c hc => ?_, fun reading hread => ?_⟩
  · rw [hdispatcher]
    exact hlisted.sorted
  · rw [hdispatcher] at hnew ⊢
    have hne : entry.jobId ≠ jobId := fun heq => hnew (heq ▸ hkey)
    rw [hjobs, Dict.get?_set, if_neg hne]
    exact hlisted.listed entry hnew
  · rw [htaken]
    exact hlisted.claimed cards (hdispatcher ▸ hcards) c hc
  · rw [theirs, htaken, hdispatcher]
    exact hlisted.read reading (hdispatcher ▸ hread)

end Writes

/-! ## A runner's write -/

section
variable {jobId : JobId} {dir : JobDir} {state : JobState}

/-- A state written over a queued or a running one keeps the job's priority. -/
theorem claim_priority {attempt : Nat} {spec : Option JobSpec} {assigned : List Uuid}
    {isolation now : String} {who : Identity} {before written : JobState}
    (h : claim before attempt spec (claimFields assigned isolation now who) = some written) :
    written.priority = before.priority := by
  unfold claim at h
  split at h
  · cases h
  · obtain rfl := Option.some.inj h
    cases spec with
    | none => rfl
    | some spec =>
      by_cases hlive : before.liveMaxRuntime = true
      · simp [claimFields, JobState.set, hlive]
      · simp [claimFields, JobState.set, hlive]

theorem finish_priority {before written : JobState} {outcome : Outcome} {now : String}
    {expect : Status} (h : finish before outcome now expect = some written) :
    written.priority = before.priority ∧ written.finished = true := by
  unfold finish at h
  split at h
  · cases h
  · obtain rfl := Option.some.inj h
    exact ⟨rfl, outcome.isFinished⟩

/-- A finished state is neither running nor queued. -/
theorem not_live_of_finished (h : state.finished = true) :
    state.status ≠ .running ∧ state.status ≠ .queued := by
  unfold JobState.finished at h
  constructor
  · intro heq
    rw [heq] at h
    cases h
  · intro heq
    rw [heq] at h
    cases h

/-- **What a runner the dispatcher counts on writes.** -/
theorem runner_writes {entry : Running} {write : RunnerWrite} (hkept : s.Kept)
    (hentry : s.dispatcher.running.get? jobId = some entry) (hdir : s.jobs.get? jobId = some dir)
    (hwritten : write.written entry dir = some state) : Writes s jobId dir state [] := by
  have hset : (s.jobs.set jobId { dir with state := state }).get? jobId
      = some { dir with state := state } := by simp
  have hkey : jobId ∈ s.dispatcher.running.keys := Dict.mem_keys.mpr ⟨entry, hentry⟩
  cases write with
  | claims isolation now who =>
    change claim dir.state entry.attempt dir.spec _ = some state at hwritten
    have hpriority := claim_priority hwritten
    obtain ⟨hqueued, hattempt, hrunning, hintent, hsame, -, hgpus, -⟩ := claim_eq_some hwritten
    have hnone : state.intent = none := by
      rw [hintent]
      exact hkept.unasked jobId dir hdir hqueued
    refine ⟨hdir, hpriority, fun entry' hentry' => .inl ?_, fun _ => .inl hkey, fun _ => ?_, ?_⟩
    · obtain rfl := Option.some.inj (hentry'.symm.trans hentry)
      rw [leaving_eq hset, leaving_eq hdir]
      simp [hrunning, hnone, hqueued, hattempt]
    · exact ⟨entry, hentry, hgpus, hsame.trans hattempt⟩
    · intro heq
      rw [hrunning] at heq
      cases heq
  | stops ran exitCode now =>
    simp only [RunnerWrite.written] at hwritten
    split at hwritten
    · next hintent =>
      unfold nextAttempt at hwritten
      split at hwritten
      · cases hwritten
      · next hcas =>
        rw [not_or, not_not, not_not] at hcas
        obtain rfl := Option.some.inj hwritten
        obtain ⟨entry', hentry', -, hattempt⟩ := hkept.counted jobId dir hdir hcas.1
        obtain rfl := Option.some.inj (hentry'.symm.trans hentry)
        refine ⟨hdir, rfl, fun other hother => .inl ?_, fun _ => .inl hkey, fun h => ?_,
          fun _ => rfl⟩
        · obtain rfl := Option.some.inj (hother.symm.trans hentry)
          rw [leaving_eq hset, leaving_eq hdir]
          simp [writeQueuedAgain, hcas.1, hcas.2, hattempt]
        · cases h
    · next hintent =>
      obtain ⟨hpriority, hfinished⟩ := finish_priority hwritten
      obtain ⟨hnotRunning, hnotQueued⟩ := not_live_of_finished hfinished
      have hstatus : dir.state.status = .running :=
        (finish_eq_some (fun f hf => absurd hf List.not_mem_nil) hwritten).1
      refine ⟨hdir, hpriority, fun other hother => .inl ?_, fun h => absurd h hnotQueued,
        fun h => absurd h hnotRunning, fun h => absurd h hnotQueued⟩
      rw [leaving_eq hset, leaving_eq hdir]
      simp [hnotRunning, hnotQueued, hstatus, hintent]
    · cases hwritten

end

theorem change_eq_some {jobId : JobId} {f : JobDir → Option JobState} :
    s.change jobId f = some t ↔ ∃ dir state, s.jobs.get? jobId = some dir ∧ f dir = some state ∧
      t = { s with jobs := s.jobs.set jobId { dir with state := state } } := by
  unfold change
  rw [Option.bind_eq_some_iff]
  simp only [Option.map_eq_some_iff]
  constructor
  · rintro ⟨dir, hdir, state, hstate, rfl⟩
    exact ⟨dir, state, hdir, hstate, rfl⟩
  · rintro ⟨dir, state, hdir, hstate, rfl⟩
    exact ⟨dir, hdir, state, hstate, rfl⟩

/-- **A runner's write, made or not.** -/
theorem writes_cases (s : Service) (jobId : JobId) (write : RunnerWrite) :
    s.writes jobId write = s ∨ ∃ entry dir state, s.dispatcher.running.get? jobId = some entry ∧
      s.jobs.get? jobId = some dir ∧ write.written entry dir = some state ∧
      s.writes jobId write
        = { s with jobs := s.jobs.set jobId { dir with state := state } } := by
  unfold writes
  cases hentry : s.dispatcher.running.get? jobId with
  | none => exact .inl rfl
  | some entry =>
    cases hchange : s.change jobId (write.written entry) with
    | none => exact .inl (by simp [hchange])
    | some written =>
      obtain ⟨dir, state, hdir, hstate, rfl⟩ := change_eq_some.mp hchange
      exact .inr ⟨entry, dir, state, rfl, hdir, hstate, by simp [hchange]⟩

variable (inUse) in
theorem writes_advances (hkept : s.Kept) (jobId : JobId) (write : RunnerWrite) :
    Advances s (s.writes jobId write) [] ∧ (s.writes jobId write).Kept ∧
      (s.Listed inUse → (s.writes jobId write).Listed inUse) ∧
      (s.writes jobId write).dispatcher = s.dispatcher := by
  rcases writes_cases s jobId write with heq | ⟨entry, dir, state, hentry, hdir, hstate, heq⟩
  · rw [heq]
    exact ⟨.refl s, hkept, fun h => h, rfl⟩
  · have hwrites := runner_writes hkept hentry hdir hstate
    have hkey : jobId ∈ s.dispatcher.running.keys := Dict.mem_keys.mpr ⟨entry, hentry⟩
    rw [heq]
    exact ⟨hwrites.advances rfl rfl ⟨rfl, rfl, rfl⟩, hwrites.kept rfl rfl ⟨rfl, rfl, rfl⟩ hkept,
      Writes.listed rfl rfl hkey, rfl⟩

/-! ## A job failed in the queue -/

theorem failQueued_cases (s : Service) (now : String) (jobId : JobId) (reason : String) :
    s.failQueued now jobId reason = s ∨ ∃ dir state, s.jobs.get? jobId = some dir ∧
      finish dir.state (failedQueued reason) now .queued = some state ∧
      s.failQueued now jobId reason
        = { dispatcher := s.dispatcher.dropQueued jobId
            jobs := s.jobs.set jobId { dir with state := state } } := by
  unfold failQueued
  split
  · next written hchange =>
    obtain ⟨dir, state, hdir, hstate, rfl⟩ := change_eq_some.mp hchange
    exact .inr ⟨dir, state, hdir, hstate, rfl⟩
  · exact .inl rfl

variable (inUse) in
/-- **A job failed in the queue** leaves every other where it was. -/
theorem failQueued_advances (hkept : s.Kept) {jobId : JobId}
    (hnew : jobId ∉ s.dispatcher.running.keys) (now reason : String) :
    Advances s (s.failQueued now jobId reason) [] ∧ (s.failQueued now jobId reason).Kept ∧
      (s.Listed inUse → (s.failQueued now jobId reason).Listed inUse) ∧
      (s.failQueued now jobId reason).dispatcher.running = s.dispatcher.running ∧
      ∀ j, j ≠ jobId → (s.failQueued now jobId reason).jobs.get? j = s.jobs.get? j := by
  rcases failQueued_cases s now jobId reason with heq | ⟨dir, state, hdir, hstate, heq⟩
  · rw [heq]
    exact ⟨.refl s, hkept, fun h => h, rfl, fun _ _ => rfl⟩
  obtain ⟨hpriority, hfinished⟩ := finish_priority hstate
  obtain ⟨hnotRunning, hnotQueued⟩ := not_live_of_finished hfinished
  have hwrites : Writes s jobId dir state [] :=
    ⟨hdir, hpriority, fun entry hentry => absurd (Dict.mem_keys.mpr ⟨entry, hentry⟩) hnew,
      fun h => absurd h hnotQueued, fun h => absurd h hnotRunning, fun h => absurd h hnotQueued⟩
  rw [heq]
  refine ⟨hwrites.advances rfl rfl ⟨rfl, rfl, rfl⟩, hwrites.kept rfl rfl ⟨rfl, rfl, rfl⟩ hkept,
    fun hlisted => ?_, rfl, fun j hj => by simp [hj]⟩
  refine ⟨hlisted.sorted.filter _, fun entry hentry => ?_, hlisted.claimed, hlisted.read⟩
  show entry ∈ s.dispatcher.queued.filter (fun e => decide (e.jobId ≠ jobId)) ↔ _
  rw [List.mem_filter, decide_eq_true_eq, Dict.get?_set]
  by_cases hj : entry.jobId = jobId
  · simp [hj, hnotQueued]
  · rw [hlisted.listed entry hentry, if_neg hj]
    simp [hj]

/-! ## A launch -/

/-- **A launch a pass may make**: of a queued job, at its attempt, on free cards nobody else is on. -/
structure Launchable (inUse : List Uuid) (s : Service) (jobId : JobId) (gpus : List Uuid)
    (attempt : Nat) : Prop where
  new : jobId ∉ s.dispatcher.running.keys
  queued : ∃ dir, s.jobs.get? jobId = some dir ∧ dir.state.status = .queued ∧
    dir.state.attempt = attempt
  once : gpus.Nodup
  free : ∀ c ∈ gpus, c ∉ s.taken
  unused : ∀ c ∈ gpus, c ∈ s.dispatcher.cards.shared → c ∉ inUse
  wanted : gpus ≠ [] → s.jobs.wantsCards jobId = true

/-- A launched job's cards join those taken. -/
theorem mem_taken_launch {jobId : JobId} (hnew : jobId ∉ s.dispatcher.running.keys)
    {entry : Running} (hrunning : t.dispatcher.running = s.dispatcher.running.set jobId entry)
    {c : Uuid} : c ∈ t.taken ↔ c ∈ s.taken ∨ c ∈ entry.gpus := by
  rw [taken, hrunning, Dict.values_set hnew, List.flatMap_append, List.mem_append]
  simp [taken]

section Launch
variable {jobId : JobId} {gpus : List Uuid} {attempt : Nat} (hkept : s.Kept)
  (hlaunch : Launchable inUse s jobId gpus attempt)
include hkept hlaunch

/-- Nobody has claimed its cards since the walk. -/
theorem act_launch (now : String) :
    act now s (.launch jobId gpus attempt)
      = { s with
          dispatcher :=
            { s.dispatcher with
              claimed := some (claimedGpus s.jobs)
              running := s.dispatcher.running.set jobId { gpus := gpus, attempt := attempt } } } := by
  have hnone : ¬ ∃ uuid ∈ gpus, uuid ∈ claimedGpus s.jobs := by
    rintro ⟨c, hc, hclaimed⟩
    exact hlaunch.free c hc (hkept.claimed_taken hclaimed)
  simp only [act, if_neg hnone]

theorem launch_get (j : JobId) (now : String) :
    (act now s (.launch jobId gpus attempt)).dispatcher.running.get? j
      = if j = jobId then some { gpus := gpus, attempt := attempt }
        else s.dispatcher.running.get? j := by
  rw [act_launch hkept hlaunch]
  exact Dict.get?_set _ _ _ _

theorem launch_taken (now : String) {c : Uuid} :
    c ∈ (act now s (.launch jobId gpus attempt)).taken ↔ c ∈ s.taken ∨ c ∈ gpus := by
  rw [act_launch hkept hlaunch]
  exact @mem_taken_launch s _ jobId hlaunch.new { gpus := gpus, attempt := attempt } rfl c

theorem launch_advances (now : String) :
    Advances s (act now s (.launch jobId gpus attempt)) [] := by
  have hget := launch_get hkept hlaunch
  have hjobs : (act now s (.launch jobId gpus attempt)).jobs = s.jobs := by
    rw [act_launch hkept hlaunch]
  have hne : ∀ j entry, s.dispatcher.running.get? j = some entry → j ≠ jobId := by
    intro j entry hentry heq
    exact hlaunch.new (heq ▸ Dict.mem_keys.mpr ⟨entry, hentry⟩)
  refine ⟨?_, fun j entry h => ?_, fun j entry _ h => ?_, fun j entry h hleaving => ?_, fun j h => ?_⟩
  · rw [act_launch hkept hlaunch]
    exact ⟨rfl, rfl, rfl, fun _ => rfl⟩
  · rw [hget, if_neg (hne j entry h)]
    exact h
  · rwa [hjobs]
  · rw [hjobs] at hleaving
    rw [hget] at h
    split at h
    · next hj =>
      -- its state is still queued at the attempt it is launched for
      subst hj
      obtain rfl := Option.some.inj h
      obtain ⟨dir, hdir, hqueued, hattempt⟩ := hlaunch.queued
      rw [leaving_eq hdir] at hleaving
      simp [hqueued, hattempt] at hleaving
    · exact .inl ⟨h, hleaving⟩
  · obtain ⟨hnew, hqueued⟩ := h
    rw [hjobs] at hqueued
    refine ⟨fun hkey => hnew ?_, hqueued⟩
    obtain ⟨entry, hentry⟩ := Dict.mem_keys.mp hkey
    refine Dict.mem_keys.mpr ⟨entry, ?_⟩
    rw [hget, if_neg (hne j entry hentry)]
    exact hentry

theorem launch_kept (now : String) : (act now s (.launch jobId gpus attempt)).Kept := by
  have hget := fun j => launch_get hkept hlaunch j now
  have hjobs : (act now s (.launch jobId gpus attempt)).jobs = s.jobs := by
    rw [act_launch hkept hlaunch]
  have hsame := (launch_advances hkept hlaunch now).same
  have hdisjoint : ∀ j entry c, s.dispatcher.running.get? j = some entry → c ∈ gpus →
      c ∉ entry.gpus := fun j entry c hentry hc hmem =>
    hlaunch.free c hc (mem_taken.mpr ⟨j, entry, hentry, hmem⟩)
  constructor
  · rw [hsame.cards]
    exact hkept.cards
  · rw [hsame.tableError]
    exact hkept.answers
  · intro j entry h
    rw [hjobs]
    rw [hget] at h
    split at h
    · next hj =>
      obtain ⟨dir, hdir, -⟩ := hlaunch.queued
      exact Dict.mem_keys.mpr ⟨dir, hj ▸ hdir⟩
    · exact hkept.known j entry h
  · intro j entry h
    rw [hget] at h
    split at h
    · obtain rfl := Option.some.inj h
      exact hlaunch.once
    · exact hkept.once j entry h
  · intro j j' entry entry' c h h' hc hc'
    rw [hget] at h h'
    split at h
    · next hj =>
      obtain rfl := Option.some.inj h
      split at h'
      · next hj' => rw [hj, hj']
      · exact absurd hc' (hdisjoint j' entry' c h' hc)
    · split at h'
      · obtain rfl := Option.some.inj h'
        exact absurd hc (hdisjoint j entry c h hc')
      · exact hkept.apart j j' entry entry' c h h' hc hc'
  · intro j dir hdir hstatus
    rw [hjobs] at hdir
    obtain ⟨entry, hentry, hsame⟩ := hkept.counted j dir hdir hstatus
    refine ⟨entry, (launch_advances hkept hlaunch now).entries j entry hentry, hsame⟩
  · intro j entry h hne
    rw [hjobs]
    rw [hget] at h
    split at h
    · next hj =>
      obtain rfl := Option.some.inj h
      rw [hj]
      exact hlaunch.wanted hne
    · exact hkept.wanted j entry h hne
  · intro j dir hdir
    rw [hjobs] at hdir
    exact hkept.unasked j dir hdir

theorem launch_listed (hlisted : s.Listed inUse) (now : String) :
    (act now s (.launch jobId gpus attempt)).Listed inUse := by
  have hget := fun j => launch_get hkept hlaunch j now
  have htaken := fun c => launch_taken hkept hlaunch now (c := c)
  have hsame := (launch_advances hkept hlaunch now).same
  have hrest : (act now s (.launch jobId gpus attempt)).jobs = s.jobs ∧
      (act now s (.launch jobId gpus attempt)).dispatcher.queued = s.dispatcher.queued ∧
      (act now s (.launch jobId gpus attempt)).dispatcher.borrowable = s.dispatcher.borrowable ∧
      (act now s (.launch jobId gpus attempt)).dispatcher.claimed = some (claimedGpus s.jobs) := by
    rw [act_launch hkept hlaunch]
    exact ⟨rfl, rfl, rfl, rfl⟩
  obtain ⟨hjobs, hqueued, hborrowable, hclaimed⟩ := hrest
  refine ⟨?_, fun entry hnew => ?_, fun cards hcards c hc => ?_, fun reading hread => ?_⟩
  · rw [hqueued]
    exact hlisted.sorted
  · rw [hjobs, hqueued]
    refine hlisted.listed entry fun hkey => hnew ?_
    exact (launch_advances hkept hlaunch now).keys hkey
  · rw [hclaimed] at hcards
    obtain rfl := Option.some.inj hcards
    exact (htaken c).mpr (.inl (hkept.claimed_taken hc))
  · rw [hborrowable] at hread
    obtain ⟨hsub, htheirs, hfree⟩ := hlisted.read reading hread
    rw [hsame.cards]
    refine ⟨hsub, ?_, fun c hc hnot => ?_⟩
    · -- a card it is launched on is not one that somebody else is on
      rw [htheirs, theirs, theirs, hsame.cards]
      refine List.countP_congr fun c hc => ?_
      simp only [decide_eq_true_eq, htaken, not_or]
      refine and_congr_right fun hused => ⟨fun h => ⟨h, fun hin => ?_⟩, fun h => h.1⟩
      exact hlaunch.unused c hin hc hused
    · rw [htaken, not_or] at hnot
      exact hfree c hc hnot.1

end Launch

/-! ## What `launch_ready` does -/

/-- **What a pass has still to act on**: no job twice, launches it may make, on cards of their own. -/
structure Pending (inUse : List Uuid) (s : Service) (acts : List Act) : Prop where
  once : (acts.map Act.jobId).Nodup
  apart : acts.Pairwise fun a b => a.gpus.Disjoint b.gpus
  launches : ∀ jobId gpus attempt, .launch jobId gpus attempt ∈ acts →
    Launchable inUse s jobId gpus attempt
  fails : ∀ jobId reason, .fail jobId reason ∈ acts → jobId ∉ s.dispatcher.running.keys

/-- One act of a pass. -/
theorem Pending.act {a : Act} {acts : List Act} (hpending : Pending inUse s (a :: acts))
    (hkept : s.Kept) (hlisted : s.Listed inUse) (now : String) :
    (Service.act now s a).Kept ∧ (Service.act now s a).Listed inUse ∧
      Advances s (Service.act now s a) [] ∧
      (∀ c ∈ (Service.act now s a).taken, c ∈ s.taken ∨ c ∈ a.gpus) ∧
      (∀ jobId gpus attempt, a = .launch jobId gpus attempt →
        jobId ∈ (Service.act now s a).dispatcher.running.keys) ∧
      Pending inUse (Service.act now s a) acts := by
  obtain ⟨hfirst, hrest⟩ := List.nodup_cons.mp hpending.once
  obtain ⟨hdisjoint, hapart⟩ := List.pairwise_cons.mp hpending.apart
  have hother : ∀ b ∈ acts, b.jobId ≠ a.jobId := fun b hb heq =>
    hfirst (heq ▸ List.mem_map_of_mem hb)
  cases a with
  | fail jobId reason =>
    have hnew := hpending.fails jobId reason List.mem_cons_self
    obtain ⟨hadvances, hkept', hlisted', hrunning, hjobs⟩ :=
      failQueued_advances inUse hkept hnew now reason
    have htaken : (s.failQueued now jobId reason).taken = s.taken := by
      rw [taken, hrunning, taken]
    refine ⟨hkept', hlisted' hlisted, hadvances, fun c hc => .inl (htaken ▸ hc),
      fun _ _ _ heq => (by cases heq), hrest, hapart, fun j gpus attempt hmem => ?_,
      fun j why hmem => ?_⟩
    · have hlaunch := hpending.launches j gpus attempt (List.mem_cons_of_mem _ hmem)
      show Launchable inUse (s.failQueued now jobId reason) j gpus attempt
      refine ⟨hrunning ▸ hlaunch.new, ?_, hlaunch.once, fun c hc => htaken ▸ hlaunch.free c hc,
        fun c hc hshared => ?_, fun hne => ?_⟩
      · rw [hjobs j (hother _ hmem)]
        exact hlaunch.queued
      · rw [hadvances.same.cards] at hshared
        exact hlaunch.unused c hc hshared
      · rw [hadvances.same.wantsCards]
        exact hlaunch.wanted hne
    · show j ∉ (s.failQueued now jobId reason).dispatcher.running.keys
      rw [hrunning]
      exact hpending.fails j why (List.mem_cons_of_mem _ hmem)
  | launch jobId gpus attempt =>
    have hlaunch := hpending.launches jobId gpus attempt List.mem_cons_self
    have hadvances := launch_advances hkept hlaunch now
    have hget := fun j => launch_get hkept hlaunch j now
    have hnew : ∀ j, j ≠ jobId → j ∉ s.dispatcher.running.keys →
        j ∉ (Service.act now s (.launch jobId gpus attempt)).dispatcher.running.keys := by
      intro j hj hnot hkey
      obtain ⟨entry, hentry⟩ := Dict.mem_keys.mp hkey
      rw [hget, if_neg hj] at hentry
      exact hnot (Dict.mem_keys.mpr ⟨entry, hentry⟩)
    refine ⟨launch_kept hkept hlaunch now, launch_listed hkept hlaunch hlisted now, hadvances,
      fun c hc => (launch_taken hkept hlaunch now).mp hc, ?_, hrest, hapart,
      fun j cards n hmem => ?_, fun j why hmem => ?_⟩
    · rintro j cards n heq
      cases heq
      exact Dict.mem_keys.mpr ⟨_, by rw [hget, if_pos rfl]⟩
    · have hnext := hpending.launches j cards n (List.mem_cons_of_mem _ hmem)
      refine ⟨hnew j (hother _ hmem) hnext.new, ?_, hnext.once, fun c hc htaken => ?_,
        fun c hc hshared => ?_, fun hne => ?_⟩
      · rw [act_launch hkept hlaunch]
        exact hnext.queued
      · rcases (launch_taken hkept hlaunch now).mp htaken with hin | hin
        · exact hnext.free c hc hin
        · exact hdisjoint _ hmem hin hc
      · rw [hadvances.same.cards] at hshared
        exact hnext.unused c hc hshared
      · rw [hadvances.same.wantsCards]
        exact hnext.wanted hne
    · exact hnew j (hother _ hmem) (hpending.fails j why (List.mem_cons_of_mem _ hmem))

/-- **All of them, one after the other.** -/
theorem Pending.all {acts : List Act} (hpending : Pending inUse s acts) (hkept : s.Kept)
    (hlisted : s.Listed inUse) (now : String) :
    (acts.foldl (Service.act now) s).Kept ∧ (acts.foldl (Service.act now) s).Listed inUse ∧
      Advances s (acts.foldl (Service.act now) s) [] ∧
      (∀ c ∈ (acts.foldl (Service.act now) s).taken,
        c ∈ s.taken ∨ ∃ a ∈ acts, c ∈ a.gpus) ∧
      ∀ jobId gpus attempt, .launch jobId gpus attempt ∈ acts →
        jobId ∈ (acts.foldl (Service.act now) s).dispatcher.running.keys := by
  induction acts generalizing s with
  | nil => exact ⟨hkept, hlisted, .refl s, fun c hc => .inl hc, fun _ _ _ h => by cases h⟩
  | cons a acts ih =>
    obtain ⟨hkept', hlisted', hadvances, htaken, hlaunched, hrest⟩ :=
      hpending.act hkept hlisted now
    obtain ⟨hkept'', hlisted'', hadvances', htaken', hlaunched'⟩ := ih hrest hkept' hlisted'
    rw [List.foldl_cons]
    refine ⟨hkept'', hlisted'', hadvances.trans hadvances', fun c hc => ?_,
      fun jobId gpus attempt hmem => ?_⟩
    · rcases htaken' c hc with hin | ⟨b, hb, hin⟩
      · exact (htaken c hin).imp_right fun h => ⟨a, List.mem_cons_self, h⟩
      · exact .inr ⟨b, List.mem_cons_of_mem _ hb, hin⟩
    · rcases List.mem_cons.mp hmem with heq | hmem
      · exact hadvances'.keys (hlaunched jobId gpus attempt heq.symm)
      · exact hlaunched' jobId gpus attempt hmem

end Service

end Gpuc.Host
