import Gpuc.Laws.Machine.Advances

/-!
# The steps of a pass

What `launch_ready` has to act on is in the walk's decisions (`launchReady_pending`); the jobs that
`preempt_for_waiting` stops are stopped, a job ahead of each of them being queued (`stopEach_stops`);
and the start of a pass lists the queue (`begins_listed`). So every step keeps `Sound`, and every step
but the start of a pass advances (`step_cases`).
-/

set_option autoImplicit false

namespace Gpuc.Host

open Gpuc.Basis

namespace Service

variable {s t : Service} {stamp : String → Option Seconds} {inUse : List Uuid}

/-! ## The jobs whose spec cannot be read -/

theorem act_stage (now : String) (s : Service) (a : Act) :
    (act now s a).dispatcher.stage = s.dispatcher.stage := by
  cases a with
  | fail jobId reason =>
    show (s.failQueued now jobId reason).dispatcher.stage = _
    rcases failQueued_cases s now jobId reason with heq | ⟨_, _, _, _, heq⟩
    · rw [heq]
    · rw [heq]
      rfl
  | launch jobId gpus attempt =>
    simp only [act]
    split <;> rfl

variable (inUse) in
/-- Jobs failed in the queue, one after the other. -/
theorem failEach_advances (now reason : String) (hkept : s.Kept) {jobIds : List JobId}
    (hnew : ∀ j ∈ jobIds, j ∉ s.dispatcher.running.keys) :
    let t := jobIds.foldl (fun s jobId => s.failQueued now jobId reason) s
    Advances s t [] ∧ t.Kept ∧ (s.Listed inUse → t.Listed inUse) ∧
      t.dispatcher.running = s.dispatcher.running ∧ t.dispatcher.stage = s.dispatcher.stage ∧
      ∀ j, j ∉ jobIds → t.jobs.get? j = s.jobs.get? j := by
  induction jobIds generalizing s with
  | nil => exact ⟨.refl s, hkept, fun h => h, rfl, rfl, fun _ _ => rfl⟩
  | cons jobId rest ih =>
    obtain ⟨hadvances, hkept', hlisted, hrunning, hjobs⟩ :=
      failQueued_advances inUse hkept (hnew jobId List.mem_cons_self) now reason
    have hstage : (s.failQueued now jobId reason).dispatcher.stage = s.dispatcher.stage :=
      act_stage now s (.fail jobId reason)
    obtain ⟨hadvances', hkept'', hlisted', hrunning', hstage', hjobs'⟩ := ih hkept'
      fun j hj => by rw [hrunning]; exact hnew j (List.mem_cons_of_mem _ hj)
    refine ⟨hadvances.trans hadvances', hkept'', fun h => hlisted' (hlisted h),
      hrunning'.trans hrunning, hstage'.trans hstage, fun j hj => ?_⟩
    obtain ⟨hne, hout⟩ := not_or.mp (fun h => hj (List.mem_cons.mpr h))
    rw [List.foldl_cons, hjobs' j hout, hjobs j hne]

variable (inUse) in
/-- **Failing the jobs whose spec cannot be read** leaves those that wait. -/
theorem drops_spec (hkept : s.Kept) (now : String) :
    Advances s (s.drops now) [] ∧ (s.drops now).Kept ∧
      (s.Listed inUse → (s.drops now).Listed inUse) ∧
      (s.drops now).dispatcher.running = s.dispatcher.running ∧
      (s.drops now).dispatcher.stage = s.dispatcher.stage ∧
      ∀ r, (s.drops now).Waiting r ↔ s.Waiting r := by
  have hbad : ∀ j ∈ s.dispatcher.badSpecs s.jobs, j ∉ s.dispatcher.running.keys ∧
      ((s.jobs.get? j).bind JobDir.spec).isNone = true := by
    intro j hj
    simpa using (List.mem_filter.mp hj).2
  obtain ⟨hadvances, hkept', hlisted, hrunning, hstage, hjobs⟩ :=
    failEach_advances inUse now "bad-spec" hkept fun j hj => (hbad j hj).1
  refine ⟨hadvances, hkept', hlisted, hrunning, hstage, fun r => ⟨fun h => ?_, fun h => ?_⟩⟩
  · exact ⟨hadvances.queues r.jobId h.1, hadvances.same.asks r.jobId ▸ h.2⟩
  · obtain ⟨⟨hnew, dir, hdir, hqueued⟩, hasks⟩ := h
    have hgood : r.jobId ∉ s.dispatcher.badSpecs s.jobs := by
      intro hin
      have hnone := (hbad r.jobId hin).2
      obtain ⟨dir', hdir', hspec⟩ := Option.bind_eq_some_iff.mp hasks
      obtain ⟨spec, hspec, -⟩ := Option.map_eq_some_iff.mp hspec
      rw [hdir', Option.bind_some, hspec] at hnone
      cases hnone
    refine ⟨⟨hrunning ▸ hnew, dir, ?_, hqueued⟩, hadvances.same.asks r.jobId ▸ hasks⟩
    exact (hjobs r.jobId hgood).trans hdir

/-! ## What a walk leaves to act on -/

section Walk
variable (hkept : s.Kept) (hlisted : s.Listed inUse)
include hkept hlisted

omit hkept in
theorem requests_nodup : ((s.dispatcher.requests s.jobs).map fun p => p.2.jobId).Nodup := by
  have hsorted := requests_sorted hlisted
  have hnodup : ((s.dispatcher.requests s.jobs).map Prod.snd).Nodup := by
    refine hsorted.imp fun {a b} hlt heq => ?_
    rw [heq] at hlt
    exact lt_irrefl _ hlt
  have hids : (((s.dispatcher.requests s.jobs).map Prod.snd).map Request.jobId).Nodup := by
    refine hnodup.map_on fun a ha b hb heq => ?_
    have hasksA := ((mem_requests_iff hlisted).mp ha).2
    have hasksB := ((mem_requests_iff hlisted).mp hb).2
    rw [heq, hasksB] at hasksA
    exact (Option.some.inj hasksA).symm
  rwa [List.map_map] at hids

variable (stamp) in
/-- **What `launch_ready` has to act on.** -/
theorem launchReady_pending (clock : Seconds) :
    Pending inUse s (s.dispatcher.launchReady stamp s.jobs inUse clock) := by
  have hdistinct := pool_distinct stamp hkept hlisted
  have hmem : ∀ act ∈ s.dispatcher.launchReady stamp s.jobs inUse clock,
      ∃ before r rest decision patient,
        (s.dispatcher.requests s.jobs).map Prod.snd = before ++ r :: rest ∧
        decision = ((walkTo (s.dispatcher.pool stamp s.jobs inUse) before).turn r).1 ∧
        decision ∈ plan ((s.dispatcher.requests s.jobs).map Prod.snd)
          (s.dispatcher.pool stamp s.jobs inUse) ∧
        Dispatcher.actOn (s.dispatcher.requests s.jobs) patient decision = some act := by
    intro act hact
    obtain ⟨decision, hdecision, heq⟩ := List.mem_filterMap.mp hact
    obtain ⟨before, r, rest, hsplit, hturn⟩ := mem_plan.mp hdecision
    exact ⟨before, r, rest, decision, _, hsplit, hturn, hdecision, heq⟩
  have hwaiting : ∀ {before r rest},
      (s.dispatcher.requests s.jobs).map Prod.snd = before ++ r :: rest → s.Waiting r := by
    intro before r rest hsplit
    refine (mem_requests_iff hlisted).mp ?_
    rw [hsplit]
    exact List.mem_append_right _ List.mem_cons_self
  constructor
  · refine ((map_filterMap_sublist (fun _ _ hact => (actOn_eq_some hact).1) _).trans ?_).nodup
      (requests_nodup hlisted)
    rw [plan_jobIds, List.map_map]
    exact .refl _
  · refine (plan_disjoint _ hdistinct).1.filterMap _ ?_
    intro a b hab act hact act' hact' c hc hc'
    exact hab ((actOn_eq_some hact).2.1 c hc) ((actOn_eq_some hact').2.1 c hc')
  · intro jobId gpus attempt hact
    obtain ⟨before, r, rest, decision, patient, hsplit, hturn, hdecision, hact⟩ := hmem _ hact
    obtain ⟨hjob, hcards, hentry⟩ := actOn_eq_some hact
    obtain ⟨⟨entry, r'⟩, hp, hid, hattempt⟩ := hentry jobId gpus attempt rfl
    have hturned := Walk.turned (walkTo (s.dispatcher.pool stamp s.jobs inUse) before) r
    rw [← hturn] at hturned
    obtain rfl : jobId = r.jobId := hjob.trans hturned.jobId
    obtain ⟨⟨hnew, dir, hdir, hqueued⟩, hasks⟩ := hwaiting hsplit
    have hgives := plan_gives _ hdistinct decision hdecision
    have hassigned : ∃ heldFor, decision = .assigned r.jobId gpus heldFor := by
      cases decision with
      | assigned j cards heldFor =>
        simp only [Dispatcher.actOn, Option.map_eq_some_iff] at hact
        obtain ⟨q, -, heq⟩ := hact
        cases heq
        exact ⟨heldFor, rfl⟩
      | fails j why =>
        simp only [Dispatcher.actOn] at hact
        split at hact <;> cases hact
      | holds _ _ _ _ _ | steppedOver _ _ => cases hact
    obtain ⟨heldFor, rfl⟩ := hassigned
    obtain ⟨hlength, honce⟩ := hturned.exact ((walkTo_spent _ before).distinct hdistinct)
    refine ⟨hnew, ⟨dir, hdir, hqueued, ?_⟩, honce, fun c hc => ?_, fun c hc hshared => ?_,
      fun hne => ?_⟩
    · -- the attempt is the one the listing names
      obtain ⟨hqueuedEntry, hnotRunning, -⟩ := mem_requests hp
      obtain ⟨dir', hdir', -, -, hsame⟩ := (hlisted.listed entry hnotRunning).mp hqueuedEntry
      change entry.jobId = r.jobId at hid
      rw [hid, hdir] at hdir'
      obtain rfl := Option.some.inj hdir'
      exact hsame.trans hattempt
    · rcases hgives c (hcards c hc) with hfree | hfree
      · exact ((mem_ownedFree hkept hlisted).mp hfree).2
      · exact ((mem_borrowable hkept hlisted).mp hfree).2.2
    · rcases hgives c (hcards c hc) with hfree | hfree
      · have howned := ((mem_ownedFree hkept hlisted).mp hfree).1
        exact absurd hshared ((List.nodup_append'.mp hkept.cards).2.2 howned)
      · exact ((mem_borrowable hkept hlisted).mp hfree).2.1
    · obtain ⟨dir', hdir', hspec⟩ := Option.bind_eq_some_iff.mp hasks
      obtain ⟨spec, hspec, heq⟩ := Option.map_eq_some_iff.mp hspec
      have hgpus : spec.gpus = r.gpus := congrArg Request.gpus heq
      have hpos : 0 < gpus.length := List.length_pos_of_ne_nil hne
      unfold Jobs.wantsCards Host.wantsCards
      rw [hdir', Option.bind_some, hspec]
      simp only [decide_eq_true_eq]
      omega
  · intro jobId reason hact
    obtain ⟨before, r, rest, decision, patient, hsplit, hturn, -, hact⟩ := hmem _ hact
    have hturned := Walk.turned (walkTo (s.dispatcher.pool stamp s.jobs inUse) before) r
    rw [← hturn] at hturned
    obtain rfl : jobId = r.jobId := (actOn_eq_some hact).1.trans hturned.jobId
    exact (hwaiting hsplit).1.1

end Walk

/-! ## A walk is remembered -/

variable (stamp) in
/-- What a pass reads on a walk is so still. -/
theorem walked_listed (hkept : s.Kept) (hlisted : s.Listed inUse) {d : Dispatcher}
    (hd : d.running = s.dispatcher.running ∧ d.cards = s.dispatcher.cards ∧
      d.queued = s.dispatcher.queued ∧ d.claimed = some (s.dispatcher.claimedNow s.jobs) ∧
      d.borrowable = s.dispatcher.keptReading stamp s.jobs inUse) :
    Listed inUse { s with dispatcher := d } := by
  obtain ⟨hrunning, hcards, hqueued, hclaimed, hborrowable⟩ := hd
  have htaken : ({ s with dispatcher := d } : Service).taken = s.taken := by
    rw [taken, hrunning, taken]
  have htheirs : theirs inUse { s with dispatcher := d } = s.theirs inUse := by
    rw [theirs, htaken, hcards, theirs]
  refine ⟨?_, fun entry hnew => ?_, fun cards hread c hc => ?_, fun reading hread => ?_⟩
  · rw [hqueued]
    exact hlisted.sorted
  · rw [hqueued]
    rw [hrunning] at hnew
    exact hlisted.listed entry hnew
  · rw [hclaimed] at hread
    obtain rfl := Option.some.inj hread
    rw [htaken]
    exact (mem_busyGpus hkept hlisted.claimed).mp (List.mem_append_right _ hc)
  · rw [htaken, htheirs, hcards]
    rw [hborrowable] at hread
    unfold Dispatcher.keptReading at hread
    dsimp only at hread
    split at hread
    · exact hlisted.read reading hread
    · obtain rfl := Option.some.inj hread
      exact borrowableRead_eq hkept hlisted

/-- A dispatcher that only stands elsewhere, or remembers a reading, serves as before. -/
theorem kept_of_same (hkept : s.Kept) {d : Dispatcher} (hrunning : d.running = s.dispatcher.running)
    (hcards : d.cards = s.dispatcher.cards) (htable : d.tableError = s.dispatcher.tableError) :
    Kept { s with dispatcher := d } := by
  refine ⟨hcards ▸ hkept.cards, htable ▸ hkept.answers, ?_, ?_, ?_, ?_, ?_, hkept.unasked⟩
  · rw [hrunning]
    exact hkept.known
  · rw [hrunning]
    exact hkept.once
  · rw [hrunning]
    exact hkept.apart
  · rw [hrunning]
    exact hkept.counted
  · rw [hrunning]
    exact hkept.wanted

/-! ## `launch_ready` -/

theorem acts_stage (now : String) (acts : List Act) (s : Service) :
    (acts.foldl (act now) s).dispatcher.stage = s.dispatcher.stage := by
  induction acts generalizing s with
  | nil => rfl
  | cons a acts ih => rw [List.foldl_cons, ih, act_stage]

/-- A decision to start a job is acted on. -/
theorem assigned_acts {requests : List (QueueEntry × Request)} {pool : Pool} {jobId : JobId}
    {gpus : List Uuid} {heldFor : List JobId} (patient : Bool)
    (hids : ∀ p ∈ requests, p.2.jobId = p.1.jobId)
    (h : .assigned jobId gpus heldFor ∈ plan (requests.map Prod.snd) pool) :
    ∃ attempt, Dispatcher.actOn requests patient (.assigned jobId gpus heldFor)
      = some (.launch jobId gpus attempt) := by
  have hid : jobId ∈ (requests.map Prod.snd).map Request.jobId := by
    rw [← plan_jobIds _ pool]
    exact List.mem_map_of_mem (f := Decision.jobId) h
  rw [List.map_map] at hid
  obtain ⟨p, hp, heq⟩ := List.mem_map.mp hid
  have hfound : (requests.find? fun p => p.1.jobId = jobId).isSome = true := by
    rw [List.find?_isSome]
    refine ⟨p, hp, ?_⟩
    rw [decide_eq_true_eq, ← hids p hp]
    exact heq
  obtain ⟨q, hq⟩ := Option.isSome_iff_exists.mp hfound
  exact ⟨q.1.attempt, by simp only [Dispatcher.actOn, hq, Option.map_some]⟩

/-- **What `launch_ready` does**: it takes the cards its decisions hand out and no other, and starts
every job they assign. -/
theorem launches_spec (hkept : s.Kept) (hlisted : s.Listed inUse) {clock : Seconds} {now : String}
    (h : s.launches stamp inUse clock now = some t) :
    t.Kept ∧ t.Listed inUse ∧ Advances s t [] ∧
      t.dispatcher.stage = .loop (.dropping [] .preempts) ∧
      let decisions := plan (((s.drops now).dispatcher.requests (s.drops now).jobs).map Prod.snd)
        ((s.drops now).dispatcher.pool stamp (s.drops now).jobs inUse)
      (∀ c ∈ t.taken, c ∈ s.taken ∨ ∃ d ∈ decisions, c ∈ d.gpus) ∧
      ∀ jobId gpus heldFor, .assigned jobId gpus heldFor ∈ decisions →
        jobId ∈ t.dispatcher.running.keys := by
  unfold launches at h
  split at h
  · obtain rfl := Option.some.inj h
    obtain ⟨hdrops, hkeptDropped, hlistedDropped, hrunning, -, -⟩ :=
      drops_spec inUse hkept now
    replace hlistedDropped := hlistedDropped hlisted
    generalize s.drops now = dropped at *
    generalize hread : ({ dropped.walked stamp inUse with
      unreadableSince := dropped.dispatcher.unreadable clock
      stage := .loop (.dropping [] .preempts) } : Dispatcher) = read
    have hsame : read.running = dropped.dispatcher.running ∧
        read.cards = dropped.dispatcher.cards ∧
        read.queued = dropped.dispatcher.queued ∧
        read.claimed = some (dropped.dispatcher.claimedNow dropped.jobs) ∧
        read.borrowable = dropped.dispatcher.keptReading stamp dropped.jobs inUse ∧
        read.tableError = dropped.dispatcher.tableError ∧
        read.config = dropped.dispatcher.config ∧
        read.stage = .loop (.dropping [] .preempts) := by
      rw [← hread]
      exact ⟨rfl, rfl, rfl, rfl, rfl, rfl, rfl, rfl⟩
    obtain ⟨hrun, hcards, hqueued, hclaimed, hborrowable, htable, hconfig, hstage⟩ := hsame
    have hwalked : Advances dropped { dropped with dispatcher := read } [] :=
      .of_eq rfl hrun hconfig hcards htable
    have hpending := launchReady_pending stamp hkeptDropped hlistedDropped clock
    have hpending' : Pending inUse { dropped with dispatcher := read }
        (dropped.dispatcher.launchReady stamp dropped.jobs inUse clock) := by
      refine ⟨hpending.once, hpending.apart, fun j gpus n hmem => ?_, fun j why hmem => ?_⟩
      · have hlaunch := hpending.launches j gpus n hmem
        refine ⟨by rw [hrun]; exact hlaunch.new, hlaunch.queued, hlaunch.once, fun c hc => ?_,
          fun c hc hshared => ?_, hlaunch.wanted⟩
        · rw [taken, hrun]
          exact hlaunch.free c hc
        · rw [hcards] at hshared
          exact hlaunch.unused c hc hshared
      · rw [hrun]
        exact hpending.fails j why hmem
    obtain ⟨hkept', hlisted', hadvances, htaken, hlaunched⟩ := hpending'.all
      (kept_of_same hkeptDropped hrun hcards htable)
      (walked_listed stamp hkeptDropped hlistedDropped
        ⟨hrun, hcards, hqueued, hclaimed, hborrowable⟩) now
    refine ⟨hkept', hlisted', (hdrops.trans hwalked).trans hadvances,
      (acts_stage now _ _).trans hstage, fun c hc => ?_, fun jobId gpus heldFor hmem => ?_⟩
    · rcases htaken c hc with hin | ⟨act, hact, hin⟩
      · rw [taken, hrun, hrunning] at hin
        exact .inl hin
      · obtain ⟨decision, hdecision, heq⟩ := List.mem_filterMap.mp hact
        exact .inr ⟨decision, hdecision, (actOn_eq_some heq).2.1 c hin⟩
    · obtain ⟨attempt, hact⟩ := assigned_acts ((dropped.dispatcher.unreadable clock).any
        fun since => clock - since < Dispatcher.smiPatienceS)
        (fun p hp => (mem_requests hp).2.2) hmem
      exact hlaunched jobId gpus attempt (List.mem_filterMap.mpr ⟨_, hmem, hact⟩)
  · cases h

/-! ## `preempt_for_waiting` -/

/-- Room for more stops than those made. -/
theorem Advances.more {stopped stopped' : List JobId} (h : Advances s t stopped)
    (hsub : stopped ⊆ stopped') : Advances s t stopped' :=
  ⟨h.same, h.entries, h.leaves, fun jobId entry hentry hleaving =>
    (h.stops jobId entry hentry hleaving).imp_right fun hin => hsub hin, h.queues⟩

/-- **What a stop does.** -/
theorem stop_spec (hkept : s.Kept) {jobId : JobId}
    (h : s.change jobId (fun dir => (preempt false s.jobs jobId none dir.state).toOption) = some t) :
    t.dispatcher = s.dispatcher ∧ Advances s t [jobId] ∧ t.Kept ∧ t.Stopping jobId ∧
      (∀ j, j ≠ jobId → t.jobs.get? j = s.jobs.get? j) ∧
      ∃ dir, s.jobs.get? jobId = some dir ∧ t.jobs.get? jobId
        = some { dir with state := { dir.state with intent := some .preempt } } := by
  obtain ⟨dir, state, hdir, hstate, rfl⟩ := change_eq_some.mp h
  obtain ⟨hrunning, -, rfl⟩ := preempt_eq_ok (eq_ok_of_toOption hstate)
  generalize hstopped : ({ dir.state with
    intent := some .preempt, priority := Option.getD none dir.state.priority } : JobState) = stopped
  have hstatus : stopped.status = .running := by
    rw [← hstopped]
    exact hrunning
  have hintent : stopped.intent = some .preempt := by
    rw [← hstopped]
  have hset : (s.jobs.set jobId { dir with state := stopped }).get? jobId
      = some { dir with state := stopped } := by simp
  have hleaves : ∀ entry, Dispatcher.leaving (s.jobs.set jobId { dir with state := stopped }) jobId
      entry = true := by
    intro entry
    rw [leaving_eq hset]
    simp [hstatus, hintent]
  obtain ⟨entry, hentry, hgpus, hattempt⟩ := hkept.counted jobId dir hdir hrunning
  have hwrites : Writes s jobId dir stopped [jobId] := by
    refine ⟨hdir, by rw [← hstopped]; rfl, fun entry _ => .inr ⟨List.mem_singleton_self _, hleaves entry⟩,
      fun heq => ?_, fun _ => ⟨entry, hentry, by rw [← hstopped]; exact hgpus,
        by rw [← hstopped]; exact hattempt⟩, fun heq => ?_⟩
    · rw [hstatus] at heq
      cases heq
    · rw [hstatus] at heq
      cases heq
  refine ⟨rfl, hwrites.advances rfl rfl ⟨rfl, rfl, rfl⟩, hwrites.kept rfl rfl ⟨rfl, rfl, rfl⟩ hkept,
    ⟨entry, hentry, hleaves entry⟩, fun j hj => by simp [hj], dir, hdir, ?_⟩
  rw [hset, ← hstopped]
  rfl

/-- Stopping them, one after the other. -/
theorem stopEach_advances (hkept : s.Kept) (jobIds : List JobId) :
    Advances s (s.stopEach jobIds) jobIds ∧ (s.stopEach jobIds).Kept ∧
      (s.stopEach jobIds).dispatcher = s.dispatcher := by
  induction jobIds generalizing s with
  | nil => exact ⟨.refl s, hkept, rfl⟩
  | cons jobId rest ih =>
    unfold stopEach
    split
    · next stopped hchange =>
      obtain ⟨hsame, hadvances, hkept', -⟩ := stop_spec hkept hchange
      obtain ⟨hadvances', hkept'', hsame'⟩ := ih hkept'
      exact ⟨hadvances.trans hadvances', hkept'', hsame'.trans hsame⟩
    · exact ⟨(Advances.refl s).more (List.nil_subset _), hkept, rfl⟩

/-- A job that wants cards and is queued ahead of a running one is a reason to stop that one. -/
theorem queuedAheadOf_isSome {jobs : Jobs} {jobId : JobId} {priority : Int} {entry : QueueEntry}
    (hentry : entry ∈ listQueued jobs) (hahead : entry.key < toLex (priority, jobId))
    (hne : entry.jobId ≠ jobId) (hwants : jobs.wantsCards entry.jobId = true) :
    (queuedAheadOf jobs jobId priority).isSome = true := by
  unfold queuedAheadOf
  rw [List.find?_isSome]
  refine ⟨entry, ?_, by simp [hne, hwants]⟩
  have hsorted : (listQueued jobs).Pairwise fun a b => a.key ≤ b.key :=
    sortedBy_pairwise QueueEntry.key _
  obtain ⟨front, back, hsplit⟩ := List.append_of_mem hentry
  rw [hsplit] at hsorted ⊢
  have hfront : ∀ e ∈ front, e.key < toLex (priority, jobId) := fun e he =>
    lt_of_le_of_lt ((List.pairwise_append.mp hsorted).2.2 e he entry List.mem_cons_self) hahead
  change entry ∈ List.takeWhile (fun e => decide (e.key < toLex (priority, jobId))) _
  rw [List.takeWhile_append_of_pos fun e he => decide_eq_true (hfront e he),
    List.takeWhile_cons, if_pos (decide_eq_true hahead)]
  exact List.mem_append_right _ List.mem_cons_self

/-- A stop is not refused while a job that wants cards is queued ahead. -/
theorem preempt_ok {jobs : Jobs} {jobId : JobId} {state : JobState}
    (hrunning : state.status = .running) (hcancel : state.intent ≠ some .cancel)
    (hwants : jobs.wantsCards jobId = true)
    (hahead : (queuedAheadOf jobs jobId state.priority).isSome = true) :
    preempt false jobs jobId none state = .ok { state with intent := some .preempt } := by
  have hlive : state.finished = false := by
    unfold JobState.finished
    rw [hrunning]
    rfl
  simp [preempt, hlive, hrunning, hcancel, hwants, refuseIfNothingElseCanRun, hahead]

/-- **All of them are stopped**, when a job that asks for cards is queued ahead of each. -/
theorem stopEach_stops (hkept : s.Kept) {r : Request} (hwaiting : s.Waiting r) (hgpus : 0 < r.gpus)
    {jobIds : List JobId}
    (hjobs : ∀ j ∈ jobIds, ∃ dir, s.jobs.get? j = some dir ∧ dir.state.status = .running ∧
      dir.state.intent ≠ some .cancel ∧ s.jobs.wantsCards j = true ∧
      r.key < toLex (dir.state.priority, j)) :
    ∀ j ∈ jobIds, (s.stopEach jobIds).Stopping j := by
  induction jobIds generalizing s with
  | nil => exact fun j hj => absurd hj List.not_mem_nil
  | cons jobId rest ih =>
    obtain ⟨dir, hdir, hrunning, hcancel, hwants, hahead⟩ := hjobs jobId List.mem_cons_self
    -- the waiting job is the reason
    obtain ⟨⟨hnew, dirR, hdirR, hqueuedR⟩, hasks⟩ := hwaiting
    obtain ⟨dirR', hdirR', hspecR⟩ := Option.bind_eq_some_iff.mp hasks
    obtain rfl := Option.some.inj (hdirR'.symm.trans hdirR)
    obtain ⟨spec, hspec, heq⟩ := Option.map_eq_some_iff.mp hspecR
    have hpriority : dirR'.state.priority = r.priority := congrArg Request.priority heq
    have hgpusSpec : spec.gpus = r.gpus := congrArg Request.gpus heq
    have hne : r.jobId ≠ jobId := by
      intro heq
      rw [heq, hdir] at hdirR
      rw [← Option.some.inj hdirR, hrunning] at hqueuedR
      cases hqueuedR
    have hwantsR : s.jobs.wantsCards r.jobId = true := by
      unfold Jobs.wantsCards Host.wantsCards
      rw [hdirR, Option.bind_some, hspec]
      simp only [decide_eq_true_eq]
      omega
    have hreason : (queuedAheadOf s.jobs jobId dir.state.priority).isSome = true := by
      let entry : QueueEntry := ⟨r.priority, r.jobId, dirR'.state.attempt⟩
      have hentry : entry ∈ listQueued s.jobs :=
        mem_listQueued.mpr ⟨dirR', hdirR, hqueuedR, hpriority, rfl⟩
      exact queuedAheadOf_isSome hentry hahead hne hwantsR
    have hok := preempt_ok hrunning hcancel hwants hreason
    obtain ⟨stopped, hchange⟩ : ∃ stopped, s.change jobId
        (fun dir => (preempt false s.jobs jobId none dir.state).toOption) = some stopped :=
      ⟨_, change_eq_some.mpr ⟨dir, _, hdir, by rw [hok]; rfl, rfl⟩⟩
    obtain ⟨hdispatcher, hadvances, hkept', hstopping, hothers, dir', hdir', hstopped⟩ :=
      stop_spec hkept hchange
    obtain rfl := Option.some.inj (hdir'.symm.trans hdir)
    unfold stopEach
    rw [hchange]
    dsimp only
    intro j hj
    rcases List.mem_cons.mp hj with rfl | hj
    · -- what has begun to leave goes on leaving
      obtain ⟨entry, hentry, hleaving⟩ := hstopping
      have hrest := (stopEach_advances hkept' rest).1
      exact ⟨entry, hrest.entries j entry hentry, hrest.leaves j entry hentry hleaving⟩
    · apply ih hkept' _ _ j hj
      · refine ⟨⟨by rw [hdispatcher]; exact hnew, dirR', ?_, hqueuedR⟩, ?_⟩
        · rw [hothers r.jobId hne]
          exact hdirR
        · rw [hadvances.same.asks]
          exact hasks
      · intro j hj
        obtain ⟨dirJ, hdirJ, hrunningJ, hcancelJ, hwantsJ, haheadJ⟩ :=
          hjobs j (List.mem_cons_of_mem _ hj)
        rw [hadvances.same.wantsCards]
        by_cases hsame : j = jobId
        · subst hsame
          obtain rfl := Option.some.inj (hdirJ.symm.trans hdir)
          exact ⟨_, hstopped, hrunningJ, by simp, hwantsJ, haheadJ⟩
        · exact ⟨dirJ, (hothers j hsame).trans hdirJ, hrunningJ, hcancelJ, hwantsJ, haheadJ⟩

/-- The service once `preempt_for_waiting` has walked the queue. -/
def preemptWalked (stamp : String → Option Seconds) (inUse : List Uuid) (s : Service)
    (now : String) : Service :=
  { s.drops now with dispatcher := ((s.drops now).walked stamp inUse).goTo .idle }

variable (stamp) (inUse) in
theorem preemptWalked_kept (hkept : s.Kept) (now : String) :
    (s.preemptWalked stamp inUse now).Kept ∧
      Advances (s.drops now) (s.preemptWalked stamp inUse now) [] :=
  ⟨kept_of_same (drops_spec inUse hkept now).2.1 rfl rfl rfl,
    .of_eq rfl rfl rfl rfl rfl⟩

/-- **What `preempt_for_waiting` does.** -/
theorem preempts_spec (hkept : s.Kept) {now : String} (h : s.preempts stamp inUse now = some t) :
    t = (s.preemptWalked stamp inUse now).stopEach (s.orders stamp inUse (.preempts now)) ∧
      t.Kept ∧ Advances s t (s.orders stamp inUse (.preempts now)) ∧
      t.dispatcher.running = s.dispatcher.running ∧ t.dispatcher.stage = .idle := by
  unfold preempts at h
  split at h
  · obtain rfl := Option.some.inj h
    obtain ⟨hdrops, -, -, hrunning, -⟩ := drops_spec inUse hkept now
    obtain ⟨hkept', hwalked⟩ := preemptWalked_kept stamp inUse hkept now
    obtain ⟨hadvances, hkept'', hsame⟩ :=
      stopEach_advances hkept' (s.orders stamp inUse (.preempts now))
    refine ⟨rfl, hkept'', (hdrops.trans hwalked).trans hadvances, ?_, ?_⟩
    · exact (congrArg Dispatcher.running hsame).trans hrunning
    · exact congrArg Dispatcher.stage hsame
  · cases h

/-! ## The start of a pass -/

/-- **A step that reaps**: the entries it takes out are of attempts that are over. -/
structure Reaps (s t : Service) : Prop where
  same : Same s t
  jobs : t.jobs = s.jobs
  back : ∀ jobId entry, t.dispatcher.running.get? jobId = some entry →
    s.dispatcher.running.get? jobId = some entry
  entries : ∀ jobId entry, s.dispatcher.running.get? jobId = some entry →
    t.dispatcher.running.get? jobId = some entry ∨
      (Dispatcher.leaving s.jobs jobId entry = true ∧ jobId ∉ t.dispatcher.running.keys)

/-- An attempt whose runner has made its last write is over. -/
theorem hasLeft_leaving {jobs : Jobs} {jobId : JobId} {entry : Running}
    (h : hasLeft jobs jobId entry = true) :
    Dispatcher.leaving jobs jobId entry = true ∧
      ∀ dir, jobs.get? jobId = some dir → dir.state.status ≠ .running := by
  unfold hasLeft at h
  split at h
  · cases h
  · next dir hdir =>
    rw [leaving_eq hdir]
    simp only [Bool.or_eq_true, Bool.and_eq_true, decide_eq_true_eq] at h
    rcases h with hfinished | ⟨hqueued, hattempt⟩
    · obtain ⟨hnotRunning, hnotQueued⟩ := not_live_of_finished hfinished
      refine ⟨by simp [hnotRunning, hnotQueued], fun dir' hdir' => ?_⟩
      obtain rfl := Option.some.inj (hdir'.symm.trans hdir)
      exact hnotRunning
    · have hne : dir.state.attempt ≠ entry.attempt := by omega
      refine ⟨by simp [hqueued, hne], fun dir' hdir' => ?_⟩
      obtain rfl := Option.some.inj (hdir'.symm.trans hdir)
      rw [hqueued]
      decide

/-- The queue is listed in order, no job twice. -/
theorem listQueued_sorted (jobs : Jobs) :
    (listQueued jobs).Pairwise fun a b => a.key < b.key := by
  have hsorted : (listQueued jobs).Pairwise fun a b => a.key ≤ b.key :=
    sortedBy_pairwise QueueEntry.key _
  have hnodup : (listQueued jobs).Pairwise fun a b => a.jobId ≠ b.jobId :=
    List.pairwise_map.mp (listQueued_nodup jobs)
  refine (hsorted.and hnodup).imp fun {a b} h => lt_of_le_of_ne h.1 fun heq => h.2 ?_
  exact (Prod.mk.inj (toLex.injective heq)).2

variable (inUse) in
/-- **The start of a pass** reaps, and lists the queue. -/
theorem begins_spec (hkept : s.Kept) {exited : List JobId} (h : s.begins exited = some t) :
    t.Kept ∧ t.Listed inUse ∧ Reaps s t ∧
      t.dispatcher.stage = .loop (.dropping [] .launches) := by
  unfold begins at h
  split at h
  · obtain rfl := Option.some.inj h
    have hback : ∀ jobId entry, (s.dispatcher.running.filter fun jobId entry =>
        ¬ (jobId ∈ exited ∧ hasLeft s.jobs jobId entry = true)).get? jobId = some entry →
        s.dispatcher.running.get? jobId = some entry := by
      intro jobId entry hget
      rw [Dict.get?_filter] at hget
      exact (Option.filter_eq_some_iff.mp hget).1
    have hentries : ∀ jobId entry, s.dispatcher.running.get? jobId = some entry →
        (s.dispatcher.running.filter fun jobId entry =>
          ¬ (jobId ∈ exited ∧ hasLeft s.jobs jobId entry = true)).get? jobId = some entry ∨
        hasLeft s.jobs jobId entry = true := by
      intro jobId entry hget
      by_cases hgone : jobId ∈ exited ∧ hasLeft s.jobs jobId entry = true
      · exact .inr hgone.2
      · refine .inl ?_
        rw [Dict.get?_filter]
        exact Option.filter_eq_some_iff.mpr ⟨hget, decide_eq_true hgone⟩
    refine ⟨⟨hkept.cards, hkept.answers, fun j entry h => hkept.known j entry (hback j entry h),
      fun j entry h => hkept.once j entry (hback j entry h),
      fun j j' entry entry' c h h' => hkept.apart j j' entry entry' c (hback j entry h)
        (hback j' entry' h'), fun j dir hdir hstatus => ?_,
      fun j entry h => hkept.wanted j entry (hback j entry h), hkept.unasked⟩,
      ⟨listQueued_sorted s.jobs, fun entry _ => mem_listQueued, nofun, nofun⟩,
      ⟨⟨rfl, rfl, rfl, fun _ => rfl⟩, rfl, hback, fun j entry h => ?_⟩, rfl⟩
    · -- a runner whose job is running has not left
      obtain ⟨entry, hentry, hsame⟩ := hkept.counted j dir hdir hstatus
      refine ⟨entry, (hentries j entry hentry).resolve_right fun hleft => ?_, hsame⟩
      exact (hasLeft_leaving hleft).2 dir hdir hstatus
    · by_cases hgone : j ∈ exited ∧ hasLeft s.jobs j entry = true
      · refine .inr ⟨(hasLeft_leaving hgone.2).1, fun hkey => ?_⟩
        obtain ⟨entry', hkeep⟩ := Dict.mem_keys.mp hkey
        have hsame := hback j entry' hkeep
        obtain rfl := Option.some.inj (hsame.symm.trans h)
        rw [Dict.get?_filter] at hkeep
        have htest := (Option.filter_eq_some_iff.mp hkeep).2
        simp [hgone.1, hgone.2] at htest
      · refine .inl ?_
        rw [Dict.get?_filter]
        exact Option.filter_eq_some_iff.mpr ⟨h, decide_eq_true hgone⟩
  · cases h

/-! ## Every step -/

/-- **What every step keeps.** -/
structure Sound (inUse : List Uuid) (s : Service) : Prop where
  kept : s.Kept
  stage : s.dispatcher.stage = .idle ∨
    ((s.dispatcher.stage = .loop (.dropping [] .launches) ∨
      s.dispatcher.stage = .loop (.dropping [] .preempts)) ∧ s.Listed inUse)

/-- A pass that walks the queue has it listed. -/
theorem Sound.listed (h : Sound inUse s) (hstage : s.dispatcher.stage ≠ .idle) : s.Listed inUse :=
  (h.stage.resolve_left hstage).2

/-- **Every step keeps what is known, and is one that advances or the start of a pass.** -/
theorem step_cases {label : PassStep} (hsound : Sound inUse s)
    (hstep : s.step stamp inUse label = some t) :
    Sound inUse t ∧ (Advances s t (s.orders stamp inUse label) ∨
      (Reaps s t ∧ s.orders stamp inUse label = [])) := by
  cases label with
  | writes jobId write =>
    obtain rfl := Option.some.inj hstep
    obtain ⟨hadvances, hkept, hlisted, hsame⟩ :=
      writes_advances inUse hsound.kept jobId write
    refine ⟨⟨hkept, ?_⟩, .inl hadvances⟩
    rw [hsame]
    exact hsound.stage.imp_right fun h => ⟨h.1, hlisted h.2⟩
  | begins exited =>
    obtain ⟨hkept, hlisted, hreaps, hstage⟩ := begins_spec inUse hsound.kept hstep
    exact ⟨⟨hkept, .inr ⟨.inl hstage, hlisted⟩⟩, .inr ⟨hreaps, rfl⟩⟩
  | launches clock now =>
    have hlisted : s.Listed inUse := by
      refine hsound.listed fun hidle => ?_
      change s.launches stamp inUse clock now = some t at hstep
      unfold launches at hstep
      rw [hidle] at hstep
      cases hstep
    obtain ⟨hkept, hlisted', hadvances, hstage, -⟩ := launches_spec hsound.kept hlisted hstep
    exact ⟨⟨hkept, .inr ⟨.inr hstage, hlisted'⟩⟩, .inl hadvances⟩
  | preempts now =>
    obtain ⟨-, hkept, hadvances, -, hstage⟩ := preempts_spec hsound.kept hstep
    exact ⟨⟨hkept, .inl hstage⟩, .inl hadvances⟩

end Service

end Gpuc.Host
