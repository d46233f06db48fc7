import Gpuc.Laws.Machine.Step
import Gpuc.Laws.Plan.Walk

/-!
# The dispatcher's account

`Accounts` is what a dispatcher's own record says truly at every point of its life, whatever the other
processes do: every runner it started is in `running` with its cards for as long as that runner lives;
the decisions it has still to act on are for jobs not in `running`, hand out no card twice and none that
is there; and no attempt it knows of is later than the job's.

It says nothing of runners another dispatcher started. That is what the laws of `Gpuc.Laws.Machine`
need conditions for.
-/

set_option autoImplicit false

namespace Gpuc.Host

open Gpuc.Basis

/-- The host has the job, at this attempt or a later one. -/
def Known (h : Host) (jobId : JobId) (attempt : Nat) : Prop :=
  ∃ dir, h.jobs.get? jobId = some dir ∧ attempt ≤ dir.state.attempt

/-- Every runner is one of a job the host has, and of a dispatcher there has been. -/
structure RunnersKnown (h : Host) : Prop where
  known : ∀ r ∈ h.runners, Known h r.jobId r.attempt
  parent : ∀ r ∈ h.runners, r.parent < h.nextPid

/-- **A dispatcher's account of its cards is true.** -/
structure Accounts (h : Host) (d : Dispatcher) : Prop where
  pid : d.pid < h.nextPid
  own : ∀ r ∈ h.runners, r.parent = d.pid → ∃ entry, d.running.get? r.jobId = some entry ∧
    entry.popen = some r.who.pid ∧ entry.gpus = r.assigned
  cards : (d.cards.owned ++ d.cards.shared).Nodup
  reading : ∀ read, d.borrowable = some read → read.1.Sublist d.cards.shared
  queuedOnce : (d.queued.map QueueEntry.jobId).Nodup
  queuedKnown : ∀ entry ∈ d.queued, Known h entry.jobId entry.attempt
  pendingOnce : (d.stage.pending.map Act.jobId).Nodup
  pendingNew : ∀ act ∈ d.stage.pending, act.jobId ∉ d.running.keys
  pendingApart : d.stage.pending.Pairwise fun a b => a.gpus.Disjoint b.gpus
  pendingFree : ∀ act ∈ d.stage.pending, ∀ entry ∈ d.running.values, act.gpus.Disjoint entry.gpus
  pendingKnown : ∀ jobId gpus attempt, .launch jobId gpus attempt ∈ d.stage.pending →
    Known h jobId attempt
  settled : ∀ jobId entry todo, d.stage = .settling jobId entry todo → jobId ∉ d.running.keys

/-! ## What the other processes leave of it -/

section
variable {stamp : String → Option Seconds} {h h' : Host} {label : Label} {d d' : Dispatcher}

theorem Known.step (hlawful : h.Lawful) (hstep : h.step stamp label = some h') {jobId : JobId}
    {attempt : Nat} (hknown : Known h jobId attempt) : Known h' jobId attempt := by
  obtain ⟨dir, hdir, hle⟩ := hknown
  obtain ⟨dir', hdir'⟩ := Dict.mem_keys.mp (step_keys hlawful hstep (Dict.mem_keys.mpr ⟨dir, hdir⟩))
  refine ⟨dir', hdir', ?_⟩
  have hattempt := ((step_arrives hlawful hstep hdir').moves hdir).attempt
  omega

/-- Pids are given out once. -/
theorem step_nextPid (hstep : h.step stamp label = some h') : h.nextPid ≤ h'.nextPid := by
  cases label with
  | enqueue spec =>
    simp only [Host.step] at hstep
    split at hstep
    · cases hstep
    · obtain rfl := Option.some.inj hstep
      exact Nat.le_refl _
  | command jobId c =>
    obtain rfl := Option.some.inj hstep
    exact (change_runners h jobId (h.runCommand jobId c)).2.2.1.ge
  | runner pid act =>
    obtain ⟨_, _, _, _, _, _, _, _, rfl⟩ := runnerStep_eq_some hstep
    exact Nat.le_refl _
  | exits _ | killed | reboots _ =>
    obtain rfl := Option.some.inj hstep
    exact Nat.le_refl _
  | starts =>
    simp only [Host.step] at hstep
    split at hstep
    · cases hstep
    · obtain rfl := Option.some.inj hstep
      exact Nat.le_succ _
  | dispatcher act =>
    obtain ⟨d, -, hact⟩ := Option.bind_eq_some_iff.mp hstep
    by_cases hspawn : ∃ starttime, act = .spawns starttime
    · obtain ⟨starttime, rfl⟩ := hspawn
      change d.spawns h starttime = some h' at hact
      unfold Dispatcher.spawns at hact
      split at hact
      · obtain rfl := Option.some.inj hact
        exact Nat.le_succ _
      · cases hact
    · have hquiet := (Dispatcher.step_cases (fun starttime heq => hspawn ⟨starttime, heq⟩) hact).1
      exact hquiet.nextPid.ge

/-- **Who dispatches after a step**: the dispatcher that took it, the one that was there while another
process did, or one that has just started. -/
theorem step_dispatcher (hstep : h.step stamp label = some h') (hd' : h'.dispatcher = some d') :
    (∃ d act, h.dispatcher = some d ∧ label = .dispatcher act ∧ d.step stamp h act = some h') ∨
      (h.dispatcher = some d' ∧ ∀ act, label ≠ .dispatcher act) ∨
      (label = .starts ∧ h'.runners = h.runners ∧ d'.pid = h.nextPid ∧
        h'.nextPid = h.nextPid + 1 ∧ h'.jobs = h.jobs ∧
        d' = { pid := h.nextPid, stage := .loop (.adopting (listJobIds h.jobs)) }) := by
  cases label with
  | enqueue spec =>
    simp only [Host.step] at hstep
    split at hstep
    · cases hstep
    · obtain rfl := Option.some.inj hstep
      exact .inr (.inl ⟨hd', fun act heq => by cases heq⟩)
  | command jobId c =>
    obtain rfl := Option.some.inj hstep
    rw [(change_runners h jobId (h.runCommand jobId c)).2.2.2] at hd'
    exact .inr (.inl ⟨hd', fun act heq => by cases heq⟩)
  | runner pid act =>
    obtain ⟨_, _, _, _, _, _, _, _, rfl⟩ := runnerStep_eq_some hstep
    exact .inr (.inl ⟨hd', fun act heq => by cases heq⟩)
  | exits pid =>
    obtain rfl := Option.some.inj hstep
    exact .inr (.inl ⟨hd', fun act heq => by cases heq⟩)
  | starts =>
    simp only [Host.step] at hstep
    split at hstep
    · cases hstep
    · obtain rfl := Option.some.inj hstep
      obtain rfl := Option.some.inj hd'
      exact .inr (.inr ⟨rfl, rfl, rfl, rfl, rfl, rfl⟩)
  | killed | reboots _ =>
    obtain rfl := Option.some.inj hstep
    cases hd'
  | dispatcher act =>
    obtain ⟨d, hd, hact⟩ := Option.bind_eq_some_iff.mp hstep
    exact .inl ⟨d, act, hd, rfl, hact⟩

/-- The runners of a step that spawns none are runners there were. -/
theorem step_sameRunners (hstep : h.step stamp label = some h')
    (hspawn : ∀ starttime, label ≠ .dispatcher (.spawns starttime)) {r' : RunnerProcess}
    (hr' : r' ∈ h'.runners) :
    ∃ r ∈ h.runners, ∃ stage, r' = { r with stage := stage } ∧
      (stage = .started → r.stage = .started) := by
  rcases step_runners hstep hr' with hsame | ⟨_, starttime, _, _, hlabel, _⟩
  · exact hsame
  · exact absurd hlabel (hspawn starttime)

/-- An account stands while no runner is spawned. -/
theorem Accounts.stands (haccounts : Accounts h d) (hlawful : h.Lawful)
    (hstep : h.step stamp label = some h')
    (hspawn : ∀ starttime, label ≠ .dispatcher (.spawns starttime)) : Accounts h' d where
  pid := Nat.lt_of_lt_of_le haccounts.pid (step_nextPid hstep)
  own r' hr' hparent := by
    obtain ⟨r, hr, stage, rfl, -⟩ := step_sameRunners hstep hspawn hr'
    exact haccounts.own r hr hparent
  cards := haccounts.cards
  reading := haccounts.reading
  queuedOnce := haccounts.queuedOnce
  queuedKnown entry hentry := (haccounts.queuedKnown entry hentry).step hlawful hstep
  pendingOnce := haccounts.pendingOnce
  pendingNew := haccounts.pendingNew
  pendingApart := haccounts.pendingApart
  pendingFree := haccounts.pendingFree
  pendingKnown jobId gpus attempt hact :=
    (haccounts.pendingKnown jobId gpus attempt hact).step hlawful hstep
  settled := haccounts.settled

end

/-! ## The listing -/

/-- What a `filterMap` leaves is named in the order it was. -/
theorem map_filterMap_sublist {α β γ : Type} {f : α → Option β} {g : β → γ} {k : α → γ}
    (hf : ∀ a b, f a = some b → g b = k a) (l : List α) :
    ((l.filterMap f).map g).Sublist (l.map k) := by
  induction l with
  | nil => exact .refl _
  | cons a l ih =>
    cases ha : f a with
    | none =>
      rw [List.filterMap_cons_none ha, List.map_cons]
      exact ih.cons _
    | some b =>
      rw [List.filterMap_cons_some ha, List.map_cons, List.map_cons, hf a b ha]
      exact ih.cons_cons _

theorem mem_listQueued {jobs : Jobs} {entry : QueueEntry} :
    entry ∈ listQueued jobs ↔ ∃ dir, jobs.get? entry.jobId = some dir ∧
      dir.state.status = .queued ∧ dir.state.priority = entry.priority ∧
      dir.state.attempt = entry.attempt := by
  rw [listQueued, mem_sortedBy, List.mem_filterMap]
  constructor
  · rintro ⟨⟨jobId, dir⟩, hmem, hentry⟩
    dsimp only at hentry
    split at hentry
    · next hqueued =>
      obtain rfl := Option.some.inj hentry
      exact ⟨dir, Dict.get?_eq_some.mpr hmem, hqueued, rfl, rfl⟩
    · cases hentry
  · rintro ⟨dir, hdir, hqueued, hpriority, hattempt⟩
    refine ⟨(entry.jobId, dir), Dict.get?_eq_some.mp hdir, ?_⟩
    simp [hqueued, hpriority, hattempt]

/-- No job is listed twice. -/
theorem listQueued_nodup (jobs : Jobs) : ((listQueued jobs).map QueueEntry.jobId).Nodup := by
  refine ((sortedBy_perm _ _).map _).nodup_iff.mpr ?_
  refine List.Nodup.sublist (map_filterMap_sublist (k := Prod.fst) ?_ _) jobs.nodup
  rintro ⟨jobId, dir⟩ entry hentry
  dsimp only at hentry
  split at hentry
  · obtain rfl := Option.some.inj hentry
    rfl
  · cases hentry

/-! ## What a walk is given and what it comes to -/

section
variable {stamp : String → Option Seconds} {h : Host} {d : Dispatcher}

theorem mem_requests {jobs : Jobs} {entry : QueueEntry} {r : Request}
    (hr : (entry, r) ∈ d.requests jobs) :
    entry ∈ d.queued ∧ entry.jobId ∉ d.running.keys ∧ r.jobId = entry.jobId := by
  obtain ⟨e, he, hsome⟩ := List.mem_filterMap.mp hr
  split at hsome
  · cases hsome
  · next hnew =>
    obtain ⟨spec, -, heq⟩ := Option.map_eq_some_iff.mp hsome
    cases heq
    exact ⟨he, hnew, rfl⟩

theorem requests_sublist (jobs : Jobs) :
    ((d.requests jobs).map fun p => p.2.jobId).Sublist (d.queued.map QueueEntry.jobId) := by
  refine map_filterMap_sublist (fun entry p hp => ?_) d.queued
  split at hp
  · cases hp
  · obtain ⟨spec, -, rfl⟩ := Option.map_eq_some_iff.mp hp
    rfl

namespace Accounts
variable (haccounts : Accounts h d)
include haccounts

/-- Whatever the reading of the shared cards says, it names each once. -/
theorem reads (inUse : List Uuid) :
    (d.borrowableRead h.jobs inUse).1.Sublist d.cards.shared := by
  unfold Dispatcher.borrowableRead
  cases hread : d.borrowable with
  | some read => exact haccounts.reading read hread
  | none => exact List.filter_sublist.trans List.filter_sublist

theorem pool_distinct (inUse : List Uuid) : (d.pool stamp h.jobs inUse).Distinct := by
  obtain ⟨howned, hshared, hapart⟩ := List.nodup_append'.mp haccounts.cards
  refine ⟨howned.filter _, ?_, ?_⟩
  · exact ((haccounts.reads inUse).nodup hshared).filter _
  · intro c hc hc'
    exact hapart (List.mem_filter.mp hc).1
      ((haccounts.reads inUse).subset (List.mem_filter.mp hc').1)

/-- The cards of a walk's decisions are under no job of the account. -/
theorem plan_free {inUse : List Uuid} {requests : List Request} {decision : Decision}
    (hdecision : decision ∈ plan requests (d.pool stamp h.jobs inUse)) {c : Uuid}
    (hc : c ∈ decision.gpus) : ∀ entry ∈ d.running.values, c ∉ entry.gpus := by
  intro entry hentry hcard
  have hbusy : c ∈ d.busyGpus h.jobs :=
    List.mem_append_left _ (List.mem_flatMap.mpr ⟨entry, hentry, hcard⟩)
  rcases plan_gives requests (haccounts.pool_distinct inUse) decision hdecision c hc with hfree | hfree
  · have hnot := (List.mem_filter.mp hfree).2
    simp [hbusy] at hnot
  · have hnot := (List.mem_filter.mp hfree).2
    simp [hbusy] at hnot

end Accounts

/-- An act is what one decision comes to. -/
theorem actOn_eq_some {requests : List (QueueEntry × Request)} {patient : Bool}
    {decision : Decision} {act : Act}
    (hact : Dispatcher.actOn requests patient decision = some act) :
    act.jobId = decision.jobId ∧ (∀ c ∈ act.gpus, c ∈ decision.gpus) ∧
      ∀ jobId gpus attempt, act = .launch jobId gpus attempt →
        ∃ p ∈ requests, p.1.jobId = jobId ∧ p.1.attempt = attempt := by
  cases decision with
  | fails jobId reason =>
    simp only [Dispatcher.actOn] at hact
    split at hact
    · cases hact
    · obtain rfl := Option.some.inj hact
      exact ⟨rfl, fun c hc => absurd hc List.not_mem_nil, fun _ _ _ heq => nomatch heq⟩
  | assigned jobId gpus heldFor =>
    simp only [Dispatcher.actOn] at hact
    obtain ⟨p, hp, rfl⟩ := Option.map_eq_some_iff.mp hact
    refine ⟨rfl, fun c hc => hc, fun _ _ _ heq => ?_⟩
    cases heq
    exact ⟨p, List.mem_of_find?_eq_some hp, by simpa using List.find?_some hp, rfl⟩
  | holds _ _ _ _ _ | steppedOver _ _ => cases hact

/-- **What a walk comes to is in the account's terms**: new jobs, at attempts the host knows, on cards
that go to no other. -/
theorem Accounts.launches (haccounts : Accounts h d) (stamp : String → Option Seconds)
    (inUse : List Uuid) (now : Seconds) :
    let acts := d.launchReady stamp h.jobs inUse now
    (acts.map Act.jobId).Nodup ∧ (∀ act ∈ acts, act.jobId ∉ d.running.keys) ∧
      (acts.Pairwise fun a b => a.gpus.Disjoint b.gpus) ∧
      (∀ act ∈ acts, ∀ entry ∈ d.running.values, act.gpus.Disjoint entry.gpus) ∧
      ∀ jobId gpus attempt, .launch jobId gpus attempt ∈ acts → Known h jobId attempt := by
  intro acts
  have hids : (acts.map Act.jobId).Sublist (d.queued.map QueueEntry.jobId) := by
    refine (map_filterMap_sublist (fun _ _ hact => (actOn_eq_some hact).1) _).trans ?_
    rw [plan_jobIds, List.map_map]
    exact requests_sublist h.jobs
  have hmem : ∀ act ∈ acts, ∃ decision ∈ plan ((d.requests h.jobs).map Prod.snd)
      (d.pool stamp h.jobs inUse), ∃ patient,
        Dispatcher.actOn (d.requests h.jobs) patient decision = some act := by
    intro act hact
    obtain ⟨decision, hdecision, heq⟩ := List.mem_filterMap.mp hact
    exact ⟨decision, hdecision, _, heq⟩
  refine ⟨hids.nodup haccounts.queuedOnce, fun act hact => ?_, ?_, fun act hact entry hentry => ?_,
    fun jobId gpus attempt hact => ?_⟩
  · obtain ⟨decision, hdecision, patient, heq⟩ := hmem act hact
    rw [(actOn_eq_some heq).1]
    have hid : decision.jobId ∈ (d.requests h.jobs).map fun p => p.2.jobId := by
      have hin := List.mem_map_of_mem (f := Decision.jobId) hdecision
      rwa [plan_jobIds, List.map_map] at hin
    obtain ⟨⟨entry, r⟩, hr, hjob⟩ := List.mem_map.mp hid
    obtain ⟨-, hnew, hsame⟩ := mem_requests hr
    rw [← hjob, hsame]
    exact hnew
  · refine (plan_disjoint _ (haccounts.pool_distinct inUse)).1.filterMap _ ?_
    intro a b hab act hact act' hact' c hc hc'
    exact hab ((actOn_eq_some hact).2.1 c hc) ((actOn_eq_some hact').2.1 c hc')
  · intro c hc hcard
    obtain ⟨decision, hdecision, patient, heq⟩ := hmem act hact
    exact haccounts.plan_free hdecision ((actOn_eq_some heq).2.1 c hc) entry hentry hcard
  · obtain ⟨decision, -, patient, heq⟩ := hmem _ hact
    obtain ⟨⟨entry, r⟩, hr, rfl, rfl⟩ := (actOn_eq_some heq).2.2 jobId gpus attempt rfl
    exact haccounts.queuedKnown entry (mem_requests hr).1

end

/-! ## What a step of the dispatcher makes of it -/

section
variable {stamp : String → Option Seconds} {h h' : Host} {label : Label} {d d' : Dispatcher}

/-- A dispatcher with nothing pending and nothing to settle. -/
theorem Accounts.calm (haccounts : Accounts h d) (hpid : d'.pid = d.pid)
    (hown : ∀ r ∈ h.runners, r.parent = d.pid → ∃ entry, d'.running.get? r.jobId = some entry ∧
      entry.popen = some r.who.pid ∧ entry.gpus = r.assigned)
    (hcards : (d'.cards.owned ++ d'.cards.shared).Nodup)
    (hreading : ∀ read, d'.borrowable = some read → read.1.Sublist d'.cards.shared)
    (honce : (d'.queued.map QueueEntry.jobId).Nodup)
    (hknown : ∀ entry ∈ d'.queued, Known h entry.jobId entry.attempt)
    (hpending : d'.stage.pending = [])
    (hsettled : ∀ jobId entry todo, d'.stage = .settling jobId entry todo →
      jobId ∉ d'.running.keys) : Accounts h d' where
  pid := hpid ▸ haccounts.pid
  own r hr hparent := hown r hr (hparent.trans hpid)
  cards := hcards
  reading := hreading
  queuedOnce := honce
  queuedKnown := hknown
  pendingOnce := by rw [hpending]; exact List.nodup_nil
  pendingNew := by rw [hpending]; exact fun _ hact => absurd hact List.not_mem_nil
  pendingApart := by rw [hpending]; exact .nil
  pendingFree := by rw [hpending]; exact fun _ hact => absurd hact List.not_mem_nil
  pendingKnown := by rw [hpending]; exact fun _ _ _ hact => absurd hact List.not_mem_nil
  settled := hsettled

theorem not_settling {stage : Stage} (hplain : stage.plain = true) (jobId : JobId)
    (entry : Running) (todo : List JobId) : stage ≠ .settling jobId entry todo := by
  rintro rfl
  cases hplain

/-- **Every turn of the dispatcher keeps its account.** -/
theorem Turn.accounts {act : DispatcherAct} (hturn : Turn stamp h d act d') (haccounts : Accounts h d) : Accounts h d' := by
  cases hturn with
  | serves hserves =>
    have hmem : ∀ act ∈ d'.stage.pending, act ∈ d.stage.pending :=
      fun act hact => hserves.pending.subset hact
    exact
      { pid := hserves.pid ▸ haccounts.pid
        own := fun r hr hparent => by
          rw [hserves.running]
          exact haccounts.own r hr (hparent.trans hserves.pid)
        cards := hserves.cards ▸ haccounts.cards
        reading := fun read hread => by
          rw [hserves.cards]
          exact haccounts.reading read (hserves.borrowable ▸ hread)
        queuedOnce := (hserves.queued.map _).nodup haccounts.queuedOnce
        queuedKnown := fun entry hentry =>
          haccounts.queuedKnown entry (hserves.queued.subset hentry)
        pendingOnce := (hserves.pending.map _).nodup haccounts.pendingOnce
        pendingNew := fun act hact => hserves.running ▸ haccounts.pendingNew act (hmem act hact)
        pendingApart := haccounts.pendingApart.sublist hserves.pending
        pendingFree := fun act hact => hserves.running ▸ haccounts.pendingFree act (hmem act hact)
        pendingKnown := fun jobId gpus attempt hact =>
          haccounts.pendingKnown jobId gpus attempt (hmem _ hact)
        settled := fun jobId entry todo hstage =>
          absurd hstage (not_settling hserves.plain jobId entry todo) }
  | @adopts jobId state stage hnew hpending hplain =>
    have hout : jobId ∉ d.running.keys := by
      rcases hnew with hnew | ⟨entry, todo, hstage⟩
      · exact hnew
      · exact haccounts.settled jobId entry todo hstage
    refine haccounts.calm rfl (fun r hr hparent => ?_) haccounts.cards haccounts.reading
      haccounts.queuedOnce haccounts.queuedKnown hpending fun jobId' entry todo hstage =>
        absurd hstage (not_settling hplain jobId' entry todo)
    obtain ⟨entry, hentry, hrest⟩ := haccounts.own r hr hparent
    refine ⟨entry, ?_, hrest⟩
    rw [Dict.get?_set, if_neg]
    · exact hentry
    · rintro rfl
      exact hout (Dict.mem_keys.mpr ⟨entry, hentry⟩)
  | @begins config table tableError todo =>
    exact haccounts.calm rfl haccounts.own (resolve_nodup config.gpus table config.sharedGpus)
      (fun _ hread => nomatch hread) haccounts.queuedOnce haccounts.queuedKnown rfl
      fun _ _ _ hstage => nomatch hstage
  | lists =>
    refine haccounts.calm rfl haccounts.own haccounts.cards haccounts.reading
      (listQueued_nodup h.jobs) (fun entry hentry => ?_) rfl fun _ _ _ hstage => nomatch hstage
    obtain ⟨dir, hdir, -, -, hattempt⟩ := mem_listQueued.mp hentry
    exact ⟨dir, hdir, hattempt.ge⟩
  | @rereads jobId gpus attempt todo now hact hstage hfree =>
    have hpending : d.stage.pending
        = ({ d with
            claimed := some (claimedGpus h.jobs)
            stage := .spawning jobId gpus attempt todo } : Dispatcher).stage.pending := by
      rw [hstage]
      rfl
    exact
      { haccounts with
        pendingOnce := hpending ▸ haccounts.pendingOnce
        pendingNew := hpending ▸ haccounts.pendingNew
        pendingApart := hpending ▸ haccounts.pendingApart
        pendingFree := hpending ▸ haccounts.pendingFree
        pendingKnown := hpending ▸ haccounts.pendingKnown
        settled := fun _ _ _ hstage' => nomatch hstage' }
  | drains _ _ =>
    exact haccounts.calm rfl haccounts.own haccounts.cards haccounts.reading haccounts.queuedOnce
      haccounts.queuedKnown rfl fun _ _ _ hstage => nomatch hstage
  | @drainsOn stage _ hdrains =>
    refine haccounts.calm rfl haccounts.own haccounts.cards haccounts.reading haccounts.queuedOnce
      haccounts.queuedKnown ?_ fun jobId entry todo hstage => ?_
    · change stage.pending = []
      cases stage <;> first | rfl | cases hdrains
    · change stage = _ at hstage
      rw [hstage] at hdrains
      cases hdrains
  | @takes jobId entry todo hentry hdead =>
    refine haccounts.calm rfl (fun r hr hparent => ?_) haccounts.cards haccounts.reading
      haccounts.queuedOnce haccounts.queuedKnown rfl fun jobId' entry' todo' hstage => ?_
    · obtain ⟨own, hown, hpopen, hgpus⟩ := haccounts.own r hr hparent
      refine ⟨own, ?_, hpopen, hgpus⟩
      rw [Dict.get?_erase, if_neg]
      · exact hown
      · -- its runner is alive, so the entry taken out is not its own
        intro hsame
        rw [hsame, hentry] at hown
        obtain rfl := Option.some.inj hown
        have halive : entry.alive h.boot h.processes = true := by
          unfold Running.alive
          rw [hpopen]
          exact List.any_eq_true.mpr ⟨r.who, List.mem_map_of_mem hr, by simp⟩
        rw [halive] at hdead
        cases hdead
    · cases hstage
      exact fun hkey => (Dict.mem_keys_erase.mp hkey).1 rfl
  | @plans _ inUse now hpid hrunning hcards hborrowable hqueued hpending hplain =>
    have hreading : ∀ read, d'.borrowable = some read → read.1.Sublist d'.cards.shared := by
      intro read hread
      rw [hborrowable, Dispatcher.keptReading] at hread
      rw [hcards]
      split at hread
      · exact haccounts.reading read hread
      · obtain rfl := Option.some.inj hread
        exact haccounts.reads inUse
    rcases hpending with hnone | hacts
    · exact haccounts.calm hpid (fun r hr hparent => hrunning ▸ haccounts.own r hr hparent)
        (hcards ▸ haccounts.cards) hreading (hqueued ▸ haccounts.queuedOnce)
        (hqueued ▸ haccounts.queuedKnown) hnone fun jobId entry todo hstage =>
          absurd hstage (not_settling hplain jobId entry todo)
    · obtain ⟨honce, hnew, hapart, hfree, hknown⟩ := haccounts.launches stamp inUse now
      rw [← hacts] at honce hnew hapart hfree hknown
      exact
        { pid := hpid ▸ haccounts.pid
          own := fun r hr hparent => hrunning ▸ haccounts.own r hr (hparent.trans hpid)
          cards := hcards ▸ haccounts.cards
          reading := hreading
          queuedOnce := hqueued ▸ haccounts.queuedOnce
          queuedKnown := hqueued ▸ haccounts.queuedKnown
          pendingOnce := honce
          pendingNew := hrunning ▸ hnew
          pendingApart := hapart
          pendingFree := hrunning ▸ hfree
          pendingKnown := hknown
          settled := fun jobId entry todo hstage =>
            absurd hstage (not_settling hplain jobId entry todo) }

/-- A spawn, said once. -/
theorem spawns_eq_some {starttime : Option String} (hstep : d.spawns h starttime = some h') :
    ∃ jobId gpus attempt todo, d.stage = .spawning jobId gpus attempt todo ∧
      h' = { h with
        runners := h.runners ++ [
          { who := ⟨h.nextPid, h.boot.bootId, h.boot.initStart, starttime⟩
            parent := d.pid
            jobId := jobId
            attempt := attempt
            assigned := gpus
            stage := .started }]
        nextPid := h.nextPid + 1
        dispatcher := some
          { d with
            running := d.running.set jobId
              { gpus := gpus, attempt := attempt, popen := some h.nextPid }
            stage := .loop (.launching todo) } } := by
  unfold Dispatcher.spawns at hstep
  split at hstep
  · next jobId gpus attempt todo hstage =>
    exact ⟨jobId, gpus, attempt, todo, hstage, (Option.some.inj hstep).symm⟩
  · cases hstep

/-- **A spawn keeps the account**: the new runner and its entry come together. -/
theorem Accounts.spawns (haccounts : Accounts h d) {starttime : Option String}
    (hstep : d.spawns h starttime = some h') (hd' : h'.dispatcher = some d') :
    Accounts h' d' := by
  obtain ⟨jobId, gpus, attempt, todo, hstage, rfl⟩ := spawns_eq_some hstep
  obtain rfl := Option.some.inj hd'
  have honce := haccounts.pendingOnce
  have hnew := haccounts.pendingNew
  have hapart := haccounts.pendingApart
  have hfree := haccounts.pendingFree
  rw [hstage] at honce hnew hapart hfree
  have hout : jobId ∉ d.running.keys := hnew _ List.mem_cons_self
  have hother : ∀ act ∈ todo, act.jobId ≠ jobId := by
    intro act hact hsame
    exact (List.nodup_cons.mp honce).1 (List.mem_map.mpr ⟨act, hact, hsame⟩)
  exact
    { pid := Nat.lt_succ_of_lt haccounts.pid
      own := fun r hr hparent => by
        rw [Dict.get?_set]
        rcases List.mem_append.mp hr with hold | hself
        · obtain ⟨entry, hentry, hrest⟩ := haccounts.own r hold hparent
          rw [if_neg]
          · exact ⟨entry, hentry, hrest⟩
          · intro hsame
            exact hout (hsame ▸ Dict.mem_keys.mpr ⟨entry, hentry⟩)
        · obtain rfl := List.mem_singleton.mp hself
          exact ⟨_, if_pos rfl, rfl, rfl⟩
      cards := haccounts.cards
      reading := haccounts.reading
      queuedOnce := haccounts.queuedOnce
      queuedKnown := haccounts.queuedKnown
      pendingOnce := (List.nodup_cons.mp honce).2
      pendingNew := fun act hact hkey => by
        rcases Dict.mem_keys_set.mp hkey with hsame | hkey
        · exact hother act hact hsame
        · exact hnew act (List.mem_cons_of_mem _ hact) hkey
      pendingApart := hapart.of_cons
      pendingFree := fun act hact entry hentry => by
        rw [Dict.values_set hout] at hentry
        rcases List.mem_append.mp hentry with hold | hself
        · exact hfree act (List.mem_cons_of_mem _ hact) entry hold
        · rw [List.mem_singleton.mp hself]
          exact ((List.pairwise_cons.mp hapart).1 act hact).symm
      pendingKnown := fun jobId' gpus' attempt' hact =>
        haccounts.pendingKnown jobId' gpus' attempt' (hstage ▸ List.mem_cons_of_mem _ hact)
      settled := fun _ _ _ hstage' => nomatch hstage' }

/-- A dispatcher that has just started has nothing to account for. -/
theorem Accounts.starts (hrunners : RunnersKnown h) {todo : List JobId}
    (hsame : h'.runners = h.runners) (hpid : h'.nextPid = h.nextPid + 1) :
    Accounts h' { pid := h.nextPid, stage := .loop (.adopting todo) } where
  pid := hpid ▸ Nat.lt_succ_self _
  own r hr hparent := absurd hparent (Nat.ne_of_lt (hrunners.parent r (hsame ▸ hr)))
  cards := List.nodup_nil
  reading _ hread := nomatch hread
  queuedOnce := List.nodup_nil
  queuedKnown _ hentry := absurd hentry List.not_mem_nil
  pendingOnce := List.nodup_nil
  pendingNew _ hact := absurd hact List.not_mem_nil
  pendingApart := .nil
  pendingFree _ hact := absurd hact List.not_mem_nil
  pendingKnown _ _ _ hact := absurd hact List.not_mem_nil
  settled _ _ _ hstage := nomatch hstage

end

/-! ## Along a run -/

/-- **What holds of every host.** -/
structure Sound (h : Host) : Prop where
  lawful : h.Lawful
  runners : RunnersKnown h
  accounts : ∀ d, h.dispatcher = some d → Accounts h d

section
variable {stamp : String → Option Seconds} {h h' : Host} {label : Label}

theorem Sound.fresh (boot : Boot) : Sound (.fresh boot) where
  lawful := fresh_lawful boot
  runners := ⟨fun _ hr => absurd hr List.not_mem_nil, fun _ hr => absurd hr List.not_mem_nil⟩
  accounts _ hd := nomatch hd

theorem Sound.step (hsound : Sound h) (hstep : h.step stamp label = some h') : Sound h' where
  lawful := step_lawful hsound.lawful hstep
  runners := by
    have hpids := step_nextPid hstep
    refine ⟨fun r' hr' => ?_, fun r' hr' => ?_⟩
    · rcases step_runners hstep hr' with ⟨r, hr, stage, rfl, -⟩ | ⟨d, _, todo, hd, -, hstage, -, -⟩
      · exact (hsound.runners.known r hr).step hsound.lawful hstep
      · have hknown := (hsound.accounts d hd).pendingKnown r'.jobId r'.assigned r'.attempt
        rw [hstage] at hknown
        exact (hknown List.mem_cons_self).step hsound.lawful hstep
    · rcases step_runners hstep hr' with ⟨r, hr, stage, rfl, -⟩ | ⟨d, _, todo, hd, -, -, hparent, -⟩
      · exact Nat.lt_of_lt_of_le (hsound.runners.parent r hr) hpids
      · rw [hparent]
        exact Nat.lt_of_lt_of_le (hsound.accounts d hd).pid hpids
  accounts := by
    intro d' hd'
    rcases step_dispatcher hstep hd' with ⟨d, act, hd, rfl, hact⟩ | ⟨hd, hnot⟩ | ⟨rfl, hsame, -, hpid, -, rfl⟩
    · have haccounts := hsound.accounts d hd
      by_cases hspawn : ∃ starttime, act = .spawns starttime
      · obtain ⟨starttime, rfl⟩ := hspawn
        exact haccounts.spawns hact hd'
      · have hno : ∀ starttime, act ≠ .spawns starttime := fun starttime heq =>
          hspawn ⟨starttime, heq⟩
        have hthere := ((Dispatcher.step_cases hno hact).2 d' hd').accounts haccounts
        exact hthere.stands hsound.lawful hstep fun starttime heq =>
          hno starttime (Label.dispatcher.inj heq)
    · exact (hsound.accounts d' hd).stands hsound.lawful hstep fun _ heq => hnot _ heq
    · exact .starts hsound.runners hsame hpid

end

end Gpuc.Host
