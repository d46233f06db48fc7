import Gpuc.Host.Passes
import Gpuc.Laws.Machine.Cards
import Gpuc.Laws.Plan.Front

/-!
# What a pass keeps

`Kept` is what is true of a dispatcher and the jobs it serves at every point of a pass: no card is under
two jobs, and what a running state on disk names is counted. `Listed` is what is true besides while a
pass walks the queue: the listing is the queue, and what the pass remembers having read is so still.
`Advances` is what every step does but the one that reaps: no entry of `running` is lost, no attempt
begins to leave except those of the jobs that are stopped, and none is queued.
-/

set_option autoImplicit false

namespace Gpuc.Host

open Gpuc.Basis

namespace Service

variable {s t u : Service}

/-! ## What a service comes to -/

/-- The cards under a job whose runner the dispatcher counts on. -/
def taken (s : Service) : List Uuid := s.dispatcher.running.values.flatMap Running.gpus

/-- The job's attempt is over, bar its runner exiting. -/
def Stopping (s : Service) (jobId : JobId) : Prop :=
  ∃ entry, s.dispatcher.running.get? jobId = some entry ∧
    Dispatcher.leaving s.jobs jobId entry = true

/-- The card is on its way back. -/
def Returning (s : Service) (c : Uuid) : Prop :=
  ∃ jobId entry, s.dispatcher.running.get? jobId = some entry ∧
    Dispatcher.leaving s.jobs jobId entry = true ∧ c ∈ entry.gpus

/-- The job is queued, and no runner was started for it. -/
def Queued (s : Service) (jobId : JobId) : Prop :=
  jobId ∉ s.dispatcher.running.keys ∧
    ∃ dir, s.jobs.get? jobId = some dir ∧ dir.state.status = .queued

/-- What a job asks of a walk. -/
def asks (s : Service) (jobId : JobId) : Option Request :=
  (s.jobs.get? jobId).bind fun dir =>
    dir.spec.map fun spec =>
      { jobId := jobId
        gpus := spec.gpus
        borrows := s.dispatcher.config.mayBorrow spec
        priority := dir.state.priority
        fills := spec.autoPreempt }

/-- The job of a request is queued. -/
def Waiting (s : Service) (r : Request) : Prop := s.Queued r.jobId ∧ s.asks r.jobId = some r

theorem mem_taken {c : Uuid} :
    c ∈ s.taken ↔ ∃ jobId entry, s.dispatcher.running.get? jobId = some entry ∧ c ∈ entry.gpus := by
  simp only [taken, List.mem_flatMap, Dict.mem_values]
  constructor
  · rintro ⟨entry, ⟨jobId, hentry⟩, hc⟩
    exact ⟨jobId, entry, hentry, hc⟩
  · rintro ⟨jobId, entry, hentry, hc⟩
    exact ⟨entry, ⟨jobId, hentry⟩, hc⟩

theorem Returning.taken {c : Uuid} (h : s.Returning c) : c ∈ s.taken := by
  obtain ⟨jobId, entry, hentry, -, hc⟩ := h
  exact mem_taken.mpr ⟨jobId, entry, hentry, hc⟩

theorem asks_jobId {jobId : JobId} {r : Request} (h : s.asks jobId = some r) : r.jobId = jobId := by
  obtain ⟨dir, -, hspec⟩ := Option.bind_eq_some_iff.mp h
  obtain ⟨spec, -, rfl⟩ := Option.map_eq_some_iff.mp hspec
  rfl

/-! ## What stays all along -/

/-- **What a pass never changes**: the configuration, the cards, and of every job its spec and its
place in the order. -/
structure Same (s t : Service) : Prop where
  config : t.dispatcher.config = s.dispatcher.config
  cards : t.dispatcher.cards = s.dispatcher.cards
  tableError : t.dispatcher.tableError = s.dispatcher.tableError
  faces : ∀ jobId, (t.jobs.get? jobId).map (fun dir => (dir.spec, dir.state.priority))
    = (s.jobs.get? jobId).map fun dir => (dir.spec, dir.state.priority)

namespace Same

theorem refl (s : Service) : Same s s := ⟨rfl, rfl, rfl, fun _ => rfl⟩

theorem trans (hst : Same s t) (htu : Same t u) : Same s u :=
  ⟨htu.config.trans hst.config, htu.cards.trans hst.cards, htu.tableError.trans hst.tableError,
    fun jobId => (htu.faces jobId).trans (hst.faces jobId)⟩

/-- A job's state is replaced by one of the same priority. -/
theorem of_set {jobId : JobId} {dir : JobDir} {state : JobState}
    (hdir : s.jobs.get? jobId = some dir) (hpriority : state.priority = dir.state.priority)
    (hjobs : t.jobs = s.jobs.set jobId { dir with state := state })
    (hdispatcher : t.dispatcher.config = s.dispatcher.config ∧
      t.dispatcher.cards = s.dispatcher.cards ∧
      t.dispatcher.tableError = s.dispatcher.tableError) : Same s t := by
  refine ⟨hdispatcher.1, hdispatcher.2.1, hdispatcher.2.2, fun j => ?_⟩
  rw [hjobs, Dict.get?_set]
  split
  · next hj =>
    simp [hj, hdir, hpriority]
  · rfl

theorem asks (h : Same s t) (jobId : JobId) : t.asks jobId = s.asks jobId := by
  have hface := h.faces jobId
  unfold Service.asks
  rw [h.config]
  cases hs : s.jobs.get? jobId with
  | none =>
    rw [hs] at hface
    have ht : t.jobs.get? jobId = none := by simpa using hface
    rw [ht]
  | some dir =>
    rw [hs] at hface
    obtain ⟨dir', ht, heq⟩ := Option.map_eq_some_iff.mp hface
    obtain ⟨hspec, hpriority⟩ := Prod.mk.inj heq
    rw [ht]
    simp only [Option.bind_some, hspec, hpriority]

theorem keys (h : Same s t) {jobId : JobId} : jobId ∈ t.jobs.keys ↔ jobId ∈ s.jobs.keys := by
  have hface := congrArg Option.isSome (h.faces jobId)
  rw [Option.isSome_map, Option.isSome_map] at hface
  simp only [Dict.mem_keys, ← Option.isSome_iff_exists, hface]

theorem wantsCards (h : Same s t) (jobId : JobId) :
    t.jobs.wantsCards jobId = s.jobs.wantsCards jobId := by
  have hface := h.faces jobId
  have hspec : (t.jobs.get? jobId).bind JobDir.spec = (s.jobs.get? jobId).bind JobDir.spec := by
    cases hs : s.jobs.get? jobId with
    | none =>
      rw [hs] at hface
      have ht : t.jobs.get? jobId = none := by simpa using hface
      rw [ht]
    | some dir =>
      rw [hs] at hface
      obtain ⟨dir', ht, heq⟩ := Option.map_eq_some_iff.mp hface
      rw [ht]
      exact congrArg Prod.fst heq
  rw [Jobs.wantsCards, hspec]
  rfl

end Same

/-! ## What a pass keeps -/

/-- **Whose cards are taken is known**: no card is under two jobs, and the dispatcher counts every
running state on disk, with its cards and its attempt. -/
structure Kept (s : Service) : Prop where
  cards : (s.dispatcher.cards.owned ++ s.dispatcher.cards.shared).Nodup
  answers : s.dispatcher.tableError = false
  known : ∀ jobId entry, s.dispatcher.running.get? jobId = some entry → jobId ∈ s.jobs.keys
  once : ∀ jobId entry, s.dispatcher.running.get? jobId = some entry → entry.gpus.Nodup
  apart : ∀ j j' entry entry' c, s.dispatcher.running.get? j = some entry →
    s.dispatcher.running.get? j' = some entry' → c ∈ entry.gpus → c ∈ entry'.gpus → j = j'
  counted : ∀ jobId dir, s.jobs.get? jobId = some dir → dir.state.status = .running →
    ∃ entry, s.dispatcher.running.get? jobId = some entry ∧ dir.state.gpus = entry.gpus ∧
      dir.state.attempt = entry.attempt
  wanted : ∀ jobId entry, s.dispatcher.running.get? jobId = some entry → entry.gpus ≠ [] →
    s.jobs.wantsCards jobId = true
  unasked : ∀ jobId dir, s.jobs.get? jobId = some dir → dir.state.status = .queued →
    dir.state.intent = none

/-- The shared cards under no job of ours that somebody else is on. -/
def theirs (inUse : List Uuid) (s : Service) : Nat :=
  s.dispatcher.cards.shared.countP fun c => c ∈ inUse ∧ c ∉ s.taken

/-- **The listing is the queue, and what the pass has read is so still.** -/
structure Listed (inUse : List Uuid) (s : Service) : Prop where
  sorted : s.dispatcher.queued.Pairwise fun a b => a.key < b.key
  listed : ∀ entry, entry.jobId ∉ s.dispatcher.running.keys →
    (entry ∈ s.dispatcher.queued ↔ ∃ dir, s.jobs.get? entry.jobId = some dir ∧
      dir.state.status = .queued ∧ dir.state.priority = entry.priority ∧
      dir.state.attempt = entry.attempt)
  claimed : ∀ cards, s.dispatcher.claimed = some cards → ∀ c ∈ cards, c ∈ s.taken
  read : ∀ reading, s.dispatcher.borrowable = some reading →
    reading.1.Sublist s.dispatcher.cards.shared ∧ reading.2 = s.theirs inUse ∧
      ∀ c ∈ s.dispatcher.cards.shared, c ∉ s.taken → (c ∈ reading.1 ↔ c ∉ inUse)

/-- A card a running state on disk names is under a job. -/
theorem Kept.claimed_taken (h : s.Kept) {c : Uuid} (hc : c ∈ claimedGpus s.jobs) : c ∈ s.taken := by
  obtain ⟨jobId, dir, hdir, hrunning, hcard⟩ := mem_claimedGpus.mp hc
  obtain ⟨entry, hentry, hgpus, -⟩ := h.counted jobId dir hdir hrunning
  exact mem_taken.mpr ⟨jobId, entry, hentry, hgpus ▸ hcard⟩

/-- **The busy cards are those under a job.** -/
theorem mem_busyGpus (h : s.Kept)
    (hclaimed : ∀ cards, s.dispatcher.claimed = some cards → ∀ c ∈ cards, c ∈ s.taken) {c : Uuid} :
    c ∈ s.dispatcher.busyGpus s.jobs ↔ c ∈ s.taken := by
  unfold Dispatcher.busyGpus Dispatcher.claimedNow
  rw [List.mem_append]
  constructor
  · rintro (hc | hc)
    · exact hc
    · cases hread : s.dispatcher.claimed with
      | none =>
        rw [hread] at hc
        exact h.claimed_taken hc
      | some cards =>
        rw [hread] at hc
        exact hclaimed cards hread c hc
  · exact .inl

/-! ## The pool of a walk -/

section Pool
variable {stamp : String → Option Seconds} {inUse : List Uuid} (hkept : s.Kept)
  (hlisted : s.Listed inUse)
include hkept hlisted

theorem mem_ownedFree {c : Uuid} :
    c ∈ (s.dispatcher.pool stamp s.jobs inUse).ownedFree
      ↔ c ∈ s.dispatcher.cards.owned ∧ c ∉ s.taken := by
  show c ∈ s.dispatcher.freeGpus s.jobs ↔ _
  simp only [Dispatcher.freeGpus, List.mem_filter, decide_eq_true_eq,
    mem_busyGpus hkept hlisted.claimed]

/-- What a pass reads of the shared cards, now or when it read them. -/
theorem borrowableRead_eq :
    (s.dispatcher.borrowableRead s.jobs inUse).1.Sublist s.dispatcher.cards.shared ∧
      (s.dispatcher.borrowableRead s.jobs inUse).2 = s.theirs inUse ∧
      ∀ c ∈ s.dispatcher.cards.shared, c ∉ s.taken →
        (c ∈ (s.dispatcher.borrowableRead s.jobs inUse).1 ↔ c ∉ inUse) := by
  unfold Dispatcher.borrowableRead
  cases hread : s.dispatcher.borrowable with
  | some reading => exact hlisted.read reading hread
  | none =>
    simp only [Option.getD_none]
    refine ⟨List.filter_sublist.trans List.filter_sublist, ?_, fun c hc hfree => ?_⟩
    · rw [theirs, List.countP_filter]
      refine List.countP_congr fun c _ => ?_
      simp [mem_busyGpus hkept hlisted.claimed]
    · simp [mem_busyGpus hkept hlisted.claimed, hc, hfree]

theorem mem_borrowable {c : Uuid} :
    c ∈ (s.dispatcher.pool stamp s.jobs inUse).borrowable.1
      ↔ c ∈ s.dispatcher.cards.shared ∧ c ∉ inUse ∧ c ∉ s.taken := by
  obtain ⟨hsub, -, hread⟩ := borrowableRead_eq hkept hlisted
  show c ∈ (s.dispatcher.borrowableGpus s.jobs inUse).1 ↔ _
  simp only [Dispatcher.borrowableGpus, List.mem_filter, decide_eq_true_eq,
    mem_busyGpus hkept hlisted.claimed]
  constructor
  · rintro ⟨hc, hfree⟩
    exact ⟨hsub.subset hc, (hread c (hsub.subset hc) hfree).mp hc, hfree⟩
  · rintro ⟨hc, hnot, hfree⟩
    exact ⟨(hread c hc hfree).mpr hnot, hfree⟩

theorem pool_theirs :
    (s.dispatcher.pool stamp s.jobs inUse).borrowable.2.theirs = s.theirs inUse :=
  (borrowableRead_eq hkept hlisted).2.1

variable (stamp) in
theorem pool_distinct : (s.dispatcher.pool stamp s.jobs inUse).Distinct := by
  obtain ⟨howned, hshared, hapart⟩ := List.nodup_append'.mp hkept.cards
  refine ⟨howned.filter _, ?_, ?_⟩
  · exact ((borrowableRead_eq hkept hlisted).1.nodup hshared).filter _
  · intro c hc hc'
    exact hapart ((mem_ownedFree hkept hlisted).mp hc).1
      ((mem_borrowable hkept hlisted).mp hc').1

variable (stamp) in
theorem pool_counted : (s.dispatcher.pool stamp s.jobs inUse).Counted := by
  have hdistinct := pool_distinct stamp hkept hlisted
  have hshared := (List.nodup_append'.mp hkept.cards).2.1
  refine ⟨List.length_filter_le _ _, ?_⟩
  rw [pool_theirs hkept hlisted, theirs, List.countP_eq_length_filter, ← List.length_append]
  refine (List.subperm_of_subset (hdistinct.shared.append (hshared.filter _) ?_) ?_).length_le
  · intro c hc hc'
    have hused := (List.mem_filter.mp hc').2
    simp only [decide_eq_true_eq] at hused
    exact ((mem_borrowable hkept hlisted).mp hc).2.1 hused.1
  · intro c hc
    rcases List.mem_append.mp hc with hc | hc
    · exact ((mem_borrowable hkept hlisted).mp hc).1
    · exact (List.mem_filter.mp hc).1

omit hkept hlisted in
/-- The cards on their way back, as a walk has them. -/
theorem mem_coming {c : Uuid} :
    c ∈ (s.dispatcher.pool stamp s.jobs inUse).coming ↔ s.Returning c ∧
      (c ∈ s.dispatcher.cards.owned ∨ c ∈ s.dispatcher.cards.shared) := by
  show c ∈ s.dispatcher.running.entries.flatMap _ ↔ _
  rw [List.mem_flatMap]
  constructor
  · rintro ⟨⟨jobId, entry⟩, hentry, hc⟩
    dsimp only at hc
    split at hc
    · next hleaving =>
      obtain ⟨hmem, hvisible⟩ := List.mem_filter.mp hc
      exact ⟨⟨jobId, entry, Dict.get?_eq_some.mpr hentry, hleaving, hmem⟩, by simpa using hvisible⟩
    · exact absurd hc List.not_mem_nil
  · rintro ⟨⟨jobId, entry, hentry, hleaving, hmem⟩, hvisible⟩
    refine ⟨(jobId, entry), Dict.get?_eq_some.mp hentry, ?_⟩
    dsimp only
    rw [if_pos hleaving]
    exact List.mem_filter.mpr ⟨hmem, by simpa using hvisible⟩

omit hlisted in
theorem nodup_coming : (s.dispatcher.pool stamp s.jobs inUse).coming.Nodup := by
  show (s.dispatcher.running.entries.flatMap _).Nodup
  refine List.nodup_flatMap.mpr ⟨fun p hp => ?_, ?_⟩
  · dsimp only
    split
    · exact (hkept.once p.1 p.2 (Dict.get?_eq_some.mpr hp)).filter _
    · exact List.nodup_nil
  · have hdistinct : s.dispatcher.running.entries.Pairwise fun p q => p.1 ≠ q.1 :=
      List.pairwise_map.mp s.dispatcher.running.nodup
    refine hdistinct.imp_of_mem fun {p q} hp hq hne c hc hc' => hne ?_
    have hgpus : ∀ p : JobId × Running, c ∈ (if Dispatcher.leaving s.jobs p.1 p.2 = true then
        p.2.gpus.filter fun uuid =>
          uuid ∈ s.dispatcher.cards.owned ∨ uuid ∈ s.dispatcher.cards.shared
      else []) → c ∈ p.2.gpus := by
      intro p hc
      split at hc
      · exact List.mem_of_mem_filter hc
      · exact absurd hc List.not_mem_nil
    exact hkept.apart p.1 q.1 p.2 q.2 c (Dict.get?_eq_some.mpr hp) (Dict.get?_eq_some.mpr hq)
      (hgpus p hc) (hgpus q hc')

omit hkept in
/-- **What a walk is asked**: the waiting jobs, in order. -/
theorem mem_requests_iff {r : Request} :
    r ∈ (s.dispatcher.requests s.jobs).map Prod.snd ↔ s.Waiting r := by
  simp only [Dispatcher.requests, List.mem_map, List.mem_filterMap]
  constructor
  · rintro ⟨⟨entry, r'⟩, ⟨entry', hentry, hsome⟩, rfl⟩
    split at hsome
    · cases hsome
    · next hnew =>
      obtain ⟨dir, hdir, hqueued, hpriority, -⟩ := (hlisted.listed entry' hnew).mp hentry
      obtain ⟨spec, hspec, heq⟩ := Option.map_eq_some_iff.mp hsome
      cases heq
      rw [hdir, Option.bind_some] at hspec
      refine ⟨⟨hnew, dir, hdir, hqueued⟩, ?_⟩
      simp [asks, hdir, hspec, hpriority]
  · rintro ⟨⟨hnew, dir, hdir, hqueued⟩, hasks⟩
    let entry : QueueEntry := ⟨dir.state.priority, r.jobId, dir.state.attempt⟩
    have hentry : entry ∈ s.dispatcher.queued :=
      (hlisted.listed entry hnew).mpr ⟨dir, hdir, hqueued, rfl, rfl⟩
    refine ⟨(entry, r), ⟨entry, hentry, ?_⟩, rfl⟩
    rw [if_neg hnew]
    simp only [asks, hdir, Option.bind_some, Option.map_eq_some_iff] at hasks
    obtain ⟨spec, hspec, heq⟩ := hasks
    show ((s.jobs.get? r.jobId).bind JobDir.spec).map _ = _
    rw [hdir, Option.bind_some, hspec, Option.map_some]
    exact congrArg some (Prod.ext rfl heq)

omit hkept in
theorem requests_sorted :
    ((s.dispatcher.requests s.jobs).map Prod.snd).Pairwise fun a b => a.key < b.key := by
  have hkeys : (((s.dispatcher.requests s.jobs).map Prod.snd).map Request.key).Sublist
      (s.dispatcher.queued.map QueueEntry.key) := by
    rw [List.map_map]
    refine map_filterMap_sublist (fun entry p hp => ?_) s.dispatcher.queued
    split at hp
    · cases hp
    · obtain ⟨spec, -, rfl⟩ := Option.map_eq_some_iff.mp hp
      rfl
  exact List.pairwise_map.mp ((List.pairwise_map.mpr hlisted.sorted).sublist hkeys)

end Pool

end Service

end Gpuc.Host
