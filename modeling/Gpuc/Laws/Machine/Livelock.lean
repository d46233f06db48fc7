import Gpuc.Basis.Endless
import Gpuc.Laws.Machine.Enough

/-!
# Automatic preemption comes to rest

Passes over a queue nobody changes order finitely many stops (`finitely_many_stops`), however long a
stop takes to land and whatever the runners do meanwhile.

Suppose some job is stopped again and again, and take the first such job in dispatch order. What it is
stopped for is ahead of it, so from some point on no job ahead of that is stopped any more, and each is
queued for good or never again. Of those queued for good, the ones that ask for more than the cards
other people leave are stepped over, and the first that does not is at the front of the queue. The next
stop makes enough cards its own (`enough_of_orders`), and as the stops land they all come back, so it is
started. But it is queued for good.

What it rests on: the stops land. A runner that never exits holds its cards for good, and the job
waiting for them waits for good.
-/

set_option autoImplicit false

namespace Gpuc.Host

open Gpuc.Basis Filter

namespace Service

variable {stamp : String → Option Seconds} {inUse : List Uuid}

/-! ## Who is stopped for whom -/

/-- A job's place in dispatch order. -/
def rank (s : Service) (jobId : JobId) : Key :=
  toLex (((s.jobs.get? jobId).map fun dir => dir.state.priority).getD 0, jobId)

theorem Same.rank {s t : Service} (h : Same s t) (jobId : JobId) : t.rank jobId = s.rank jobId := by
  have hface := congrArg (Option.map Prod.snd) (h.faces jobId)
  simp only [Option.map_map] at hface
  unfold Service.rank
  exact congrArg (fun p => toLex (Option.getD p 0, jobId)) hface

theorem asks_key {s : Service} {jobId : JobId} {r : Request} (h : s.asks jobId = some r) :
    r.key = s.rank jobId := by
  obtain ⟨dir, hdir, hspec⟩ := Option.bind_eq_some_iff.mp h
  obtain ⟨spec, -, rfl⟩ := Option.map_eq_some_iff.mp hspec
  unfold rank
  rw [hdir]
  rfl

/-- **A job is stopped for one ahead of it** that waits, and that the host could give its cards. -/
theorem stopped_for {s : Service} (hkept : s.Kept) (hlisted : s.Listed inUse) {now : String}
    {jobId : JobId} (h : jobId ∈ s.orders stamp inUse (.preempts now)) :
    jobId ∈ s.jobs.keys ∧ ∃ r, s.Waiting r ∧ (r.gpus : Int) ≤ s.oursFor inUse r ∧
      s.rank r.jobId < s.rank jobId := by
  obtain ⟨hdrops, hkept', hlisted', hrunning, -, hwaiting⟩ := drops_spec inUse hkept now
  replace hlisted' := hlisted' hlisted
  have hours : ∀ q, (s.drops now).oursFor inUse q = s.oursFor inUse q := by
    intro q
    rw [oursFor, theirs, taken, hrunning, hdrops.same.cards]
    rfl
  change jobId ∈ (s.drops now).dispatcher.preemptForWaiting stamp (s.drops now).jobs inUse at h
  unfold Dispatcher.preemptForWaiting at h
  dsimp only at h
  generalize hfound : List.findSome? _ _ = found at h
  cases found with
  | none => exact absurd h List.not_mem_nil
  | some preempts =>
    obtain ⟨front, decision, back, hsplit, hdecision, -⟩ := List.findSome?_eq_some_iff.mp hfound
    have hmem : decision ∈ plan (((s.drops now).dispatcher.requests (s.drops now).jobs).map Prod.snd)
        ((s.drops now).dispatcher.pool stamp (s.drops now).jobs inUse) := by
      rw [hsplit]
      exact List.mem_append_right _ List.mem_cons_self
    obtain ⟨before, r, rest, hrequests, hturn⟩ := mem_plan.mp hmem
    cases decision with
    | assigned _ _ _ | steppedOver _ _ | fails _ _ => cases hdecision
    | holds j owned shared gap stops =>
      dsimp only at hdecision
      split at hdecision
      · cases hdecision
      · obtain rfl := Option.some.inj hdecision
        have hjob := (Walk.turned (walkTo ((s.drops now).dispatcher.pool stamp (s.drops now).jobs
          inUse) before) r).jobId
        rw [← hturn] at hjob
        obtain rfl : j = r.jobId := hjob
        obtain ⟨-, -, hfree, hours', hgap, hnames⟩ := turn_of_holds hturn.symm
        change jobId ∈ stops at h
        rw [hnames] at h
        obtain ⟨p, hp, rfl⟩ := List.mem_map.mp h
        obtain ⟨-, -, hin, hkey⟩ := mem_stopsFor hp
        rw [(walkTo_spent _ before).preemptable] at hin
        obtain ⟨entry, dir, hentry, hdir, -, -, hpriority, -⟩ := mem_autoPreemptable hin
        have hwaits : (s.drops now).Waiting r := by
          refine (mem_requests_iff hlisted').mp ?_
          rw [hrequests]
          exact List.mem_append_right _ List.mem_cons_self
        refine ⟨hdrops.same.keys.mp (Dict.mem_keys.mpr ⟨dir, hdir⟩), r, (hwaiting r).mp hwaits, ?_,
          ?_⟩
        · rw [← hours, ← @pool_oursFor _ stamp _ hkept' hlisted']
          rw [Walk.oursFor_of_short hfree] at hours'
          have hspent := walkTo_spent
            ((s.drops now).dispatcher.pool stamp (s.drops now).jobs inUse) before
          rw [hspent.ownedPresent, hspent.sharedVisible, hspent.theirs] at hours'
          exact hours'
        · rw [← hdrops.same.rank, ← hdrops.same.rank, ← asks_key hwaits.2]
          refine lt_of_lt_of_eq hkey ?_
          unfold Preemptable.key rank
          rw [hdir, hpriority]
          rfl

/-! ## Along a run -/

/-- **The stops land**, those under way at the start among them: an attempt that is over is reaped,
some time. -/
def Lands (ρ : (passes stamp inUse).Endless) : Prop :=
  ∀ n jobId, (ρ.state n).Stopping jobId →
    ∃ k, n ≤ k ∧ jobId ∉ (ρ.state k).dispatcher.running.keys

section Run
variable {ρ : (passes stamp inUse).Endless} (hsound : ∀ n, Sound inUse (ρ.state n))
include hsound

/-- What a pass never changes is the same all along. -/
theorem run_same (n : ℕ) : Same (ρ.state 0) (ρ.state n) := by
  induction n with
  | zero => exact .refl _
  | succ n ih =>
    rcases (step_cases (hsound n) (ρ.step n)).2 with hadvances | ⟨hreaps, -⟩
    · exact ih.trans hadvances.same
    · exact ih.trans hreaps.same

theorem run_asks (n : ℕ) (jobId : JobId) : (ρ.state n).asks jobId = (ρ.state 0).asks jobId :=
  (run_same hsound n).asks jobId

/-- **A card on its way back comes back.** -/
theorem comes_back (hlands : Lands ρ) {n : ℕ} {c : Uuid} (h : (ρ.state n).Returning c) :
    ∃ k, n ≤ k ∧ c ∉ (ρ.state k).taken := by
  by_contra hnever
  push Not at hnever
  obtain ⟨jobId, entry, hentry, hleaving, hmem⟩ := h
  have hstays : ∀ k, n ≤ k → (ρ.state k).dispatcher.running.get? jobId = some entry ∧
      Dispatcher.leaving (ρ.state k).jobs jobId entry = true := by
    intro k hk
    refine stays (p := fun k => (ρ.state k).dispatcher.running.get? jobId = some entry ∧
      Dispatcher.leaving (ρ.state k).jobs jobId entry = true) (fun k hk hnow => ?_)
      ⟨hentry, hleaving⟩ hk
    rcases step_leaves (hsound k) (ρ.step k) hnow.1 hnow.2 with hstays | hback
    · exact hstays
    · exact absurd (hnever (k + 1) (by omega)) (hback c hmem)
  obtain ⟨k, hk, hgone⟩ := hlands n jobId ⟨entry, hentry, hleaving⟩
  exact hgone (Dict.mem_keys.mpr ⟨entry, (hstays k hk).1⟩)

/-- **A job that is stopped no more is not stopping**, from some point on. -/
theorem stopping_ends (hlands : Lands ρ) {jobId : JobId}
    (h : ∀ᶠ n in atTop, jobId ∉ (ρ.state n).orders stamp inUse (ρ.label n)) :
    ∀ᶠ n in atTop, ¬ (ρ.state n).Stopping jobId := by
  have hkept : ∀ᶠ n in atTop, ¬ (ρ.state n).Stopping jobId →
      ¬ (ρ.state (n + 1)).Stopping jobId := by
    filter_upwards [h] with n hn hnot hstopping
    obtain ⟨entry, hentry, hleaving⟩ := hstopping
    rcases (step_cases (hsound n) (ρ.step n)).2 with hadvances | ⟨hreaps, -⟩
    · rcases hadvances.stops jobId entry hentry hleaving with ⟨hbefore, hleaving'⟩ | hin
      · exact hnot ⟨entry, hbefore, hleaving'⟩
      · exact hn hin
    · rw [hreaps.jobs] at hleaving
      exact hnot ⟨entry, hreaps.back jobId entry hentry, hleaving⟩
  refine (settles hkept).resolve_right fun halways => ?_
  obtain ⟨n, hn⟩ := eventually_atTop.mp halways
  have hstopping := not_not.mp (hn n (Nat.le_refl n))
  obtain ⟨k, hk, hgone⟩ := hlands n jobId hstopping
  obtain ⟨entry, hentry, -⟩ := not_not.mp (hn k hk)
  exact hgone (Dict.mem_keys.mpr ⟨entry, hentry⟩)

/-- **A job that is stopped no more is queued for good or never again**, from some point on. -/
theorem queued_settles (hlands : Lands ρ) {jobId : JobId}
    (h : ∀ᶠ n in atTop, jobId ∉ (ρ.state n).orders stamp inUse (ρ.label n)) :
    (∀ᶠ n in atTop, (ρ.state n).Queued jobId) ∨ ∀ᶠ n in atTop, ¬ (ρ.state n).Queued jobId := by
  have hkept : ∀ᶠ n in atTop, ¬ (ρ.state n).Queued jobId →
      ¬ (ρ.state (n + 1)).Queued jobId := by
    filter_upwards [stopping_ends hsound hlands h] with n hn hnot hqueued
    rcases (step_cases (hsound n) (ρ.step n)).2 with hadvances | ⟨hreaps, -⟩
    · exact hnot (hadvances.queues jobId hqueued)
    · -- a job is queued again when its entry is reaped, and that attempt was over
      obtain ⟨hnew, hdir⟩ := hqueued
      rw [hreaps.jobs] at hdir
      refine hnot ⟨fun hkey => ?_, hdir⟩
      obtain ⟨entry, hentry⟩ := Dict.mem_keys.mp hkey
      rcases hreaps.entries jobId entry hentry with hstays | ⟨hleaving, -⟩
      · exact hnew (Dict.mem_keys.mpr ⟨entry, hstays⟩)
      · exact hn ⟨entry, hentry, hleaving⟩
  exact (settles hkept).symm.imp_left fun h => h.mono fun n hn => not_not.mp hn

/-- **The shared cards somebody else is on** are left to them, from some point on: none is on its way
back, and they are as many. -/
theorem others_settle (hlands : Lands ρ) :
    ∃ theirs, ∀ᶠ n in atTop, (ρ.state n).theirs inUse = theirs ∧
      ∀ c ∈ (ρ.state 0).dispatcher.cards.shared, c ∈ inUse → ¬ (ρ.state n).Returning c := by
  have hcards := fun n => (run_same hsound n).cards
  have hone : ∀ c ∈ (ρ.state 0).dispatcher.cards.shared.filter fun c => c ∈ inUse,
      ∃ out : Bool, ∀ᶠ n in atTop, (c ∉ (ρ.state n).taken ↔ out = true) := by
    intro c hc
    obtain ⟨hshared, hused⟩ := List.mem_filter.mp hc
    have hkept : ∀ᶠ n in atTop, c ∉ (ρ.state n).taken → c ∉ (ρ.state (n + 1)).taken :=
      Eventually.of_forall fun n => step_others (hsound n) (ρ.step n)
        (by rw [hcards n]; exact hshared) (by simpa using hused)
    rcases settles hkept with hout | hin
    · exact ⟨true, hout.mono fun n hn => by simp [hn]⟩
    · exact ⟨false, hin.mono fun n hn => by simp [not_not.mp hn]⟩
  choose! out hout using hone
  have hall := eventually_all_mem hout
  refine ⟨(ρ.state 0).dispatcher.cards.shared.countP fun c => c ∈ inUse ∧ out c = true, ?_⟩
  have hback : ∀ᶠ n in atTop, ∀ c ∈ (ρ.state 0).dispatcher.cards.shared, c ∈ inUse →
      ¬ (ρ.state n).Returning c := by
    obtain ⟨start, hstart⟩ := eventually_atTop.mp hall
    refine eventually_atTop.mpr ⟨start, fun n hn c hc hused hreturning => ?_⟩
    have hmem : c ∈ (ρ.state 0).dispatcher.cards.shared.filter fun c => c ∈ inUse :=
      List.mem_filter.mpr ⟨hc, by simpa using hused⟩
    obtain ⟨k, hk, hfree⟩ := comes_back hsound hlands hreturning
    have hnow := (hstart n hn c hmem).mpr ((hstart k (le_trans hn hk) c hmem).mp hfree)
    exact hnow hreturning.taken
  filter_upwards [hall, hback] with n hn hnone
  refine ⟨?_, hnone⟩
  rw [theirs, hcards n]
  refine List.countP_congr fun c hc => ?_
  simp only [decide_eq_true_eq]
  refine and_congr_right fun hused => ?_
  exact hn c (List.mem_filter.mpr ⟨hc, by simpa using hused⟩)

/-- Only `preempt_for_waiting` stops anything. -/
theorem orders_label {n : ℕ} (h : (ρ.state n).orders stamp inUse (ρ.label n) ≠ []) :
    ∃ now, ρ.label n = .preempts now ∧ (ρ.state n).Listed inUse := by
  cases hlabel : ρ.label n with
  | preempts now =>
    have hstep : (ρ.state n).step stamp inUse (ρ.label n) = some (ρ.state (n + 1)) := ρ.step n
    rw [hlabel] at hstep
    exact ⟨now, rfl, step_listed (hsound n) hstep (.inr ⟨now, rfl⟩)⟩
  | _ => rw [hlabel] at h; exact absurd rfl h

/-- **Between two walks that stop something, the queue is walked to launch.** -/
theorem launches_again
    (h : ∃ᶠ n in atTop, (ρ.state n).orders stamp inUse (ρ.label n) ≠ []) :
    ∃ᶠ n in atTop, ∃ clock now, ρ.label n = .launches clock now := by
  by_contra hnone
  obtain ⟨start, hstart⟩ := eventually_atTop.mp (not_frequently.mp hnone)
  obtain ⟨n, hn, horders⟩ := again_after h start
  obtain ⟨now, hlabel, -⟩ := orders_label hsound horders
  have hstep := ρ.step n
  rw [hlabel] at hstep
  obtain ⟨-, -, -, -, hidle⟩ := preempts_spec (hsound n).kept hstep
  -- without a launch, a pass gets no further than its start
  have hearly : ∀ k, n + 1 ≤ k → (ρ.state k).dispatcher.stage = .idle ∨
      (ρ.state k).dispatcher.stage = .loop (.dropping [] .launches) := by
    refine fun k hk => stays (p := fun k => (ρ.state k).dispatcher.stage = .idle ∨
      (ρ.state k).dispatcher.stage = .loop (.dropping [] .launches)) (fun k hk hnow => ?_)
      (.inl hidle) hk
    have hstep := ρ.step k
    cases hlabel : ρ.label k with
    | writes jobId write =>
      rw [hlabel] at hstep
      obtain ⟨-, -, -, hsame⟩ := writes_advances inUse (hsound k).kept jobId write
      rw [← Option.some.inj hstep, hsame]
      exact hnow
    | begins exited =>
      rw [hlabel] at hstep
      exact .inr (begins_spec inUse (hsound k).kept hstep).2.2.2
    | launches clock now => exact absurd ⟨clock, now, hlabel⟩ (hstart k (by omega))
    | preempts now =>
      rw [hlabel] at hstep
      change (ρ.state k).preempts stamp inUse now = some _ at hstep
      unfold preempts at hstep
      rcases hnow with hstage | hstage <;> (rw [hstage] at hstep; cases hstep)
  obtain ⟨k, hk, horders'⟩ := again_after h (n + 1)
  obtain ⟨now', hlabel', -⟩ := orders_label hsound horders'
  have hstep' := ρ.step k
  rw [hlabel'] at hstep'
  change (ρ.state k).preempts stamp inUse now' = some _ at hstep'
  unfold preempts at hstep'
  rcases hearly k hk with hstage | hstage <;> (rw [hstage] at hstep'; cases hstep')

/-- **While something is stopped again and again, no job is at the front for good**: it would be
started. -/
theorem front_starts (hlands : Lands ρ) {r : Request}
    (hfronts : ∀ᶠ n in atTop, (ρ.state n).Fronts inUse r)
    (hstops : ∃ᶠ n in atTop, (ρ.state n).orders stamp inUse (ρ.label n) ≠ []) : False := by
  obtain ⟨theirs, hothers⟩ := others_settle hsound hlands
  obtain ⟨start, hstart⟩ := eventually_atTop.mp (hfronts.and hothers)
  obtain ⟨n, hn, horders⟩ := again_after hstops start
  obtain ⟨now, hlabel, hlisted⟩ := orders_label hsound horders
  have hfront : ∀ k, n ≤ k → (ρ.state k).Fronts inUse r := fun k hk =>
    (hstart k (le_trans hn hk)).1
  have hwaits : ∀ k, n ≤ k → r.jobId ∉ (ρ.state k).dispatcher.running.keys := fun k hk =>
    (hfront k hk).waiting.1.1
  have hstep := ρ.step n
  rw [hlabel] at hstep horders
  obtain ⟨cards, henough⟩ := enough_of_orders (hsound n).kept hlisted (hfront n (Nat.le_refl n))
    hstep horders fun c hc hused => by
      rw [(run_same hsound n).cards] at hc
      exact (hstart (n + 1) (by omega)).2.2 c hc hused
  have hstay : ∀ k, n + 1 ≤ k → (ρ.state k).Enough inUse r cards := fun k hk =>
    stays (fun k hk hnow => (step_enough (hsound k) (ρ.step k) (hfront k (by omega)) hnow
      (hwaits (k + 1) (by omega))).1) henough hk
  -- each of them comes back, and is kept
  have hback : ∀ c ∈ cards, ∀ᶠ k in atTop, c ∉ (ρ.state k).taken := by
    intro c hc
    obtain ⟨k, hk, hfree⟩ : ∃ k, n + 1 ≤ k ∧ c ∉ (ρ.state k).taken := by
      rcases henough.back c hc with hfree | hreturning
      · exact ⟨n + 1, Nat.le_refl _, hfree⟩
      · exact comes_back hsound hlands hreturning
    refine eventually_atTop.mpr ⟨k, fun i hi => ?_⟩
    exact stays (fun i hi hnow => (step_enough (hsound i) (ρ.step i) (hfront i (by omega))
      (hstay i (by omega)) (hwaits (i + 1) (by omega))).2 c hc hnow) hfree hi
  obtain ⟨last, hlast⟩ := eventually_atTop.mp (eventually_all_mem hback)
  obtain ⟨k, hk, clock, now', hlaunch⟩ :=
    again_after (launches_again hsound hstops) (max last (n + 1))
  have hstep' := ρ.step k
  rw [hlaunch] at hstep'
  refine hwaits (k + 1) (by omega) ?_
  exact launches_front (hsound k) (hfront k (by omega)) (hstay k (by omega))
    (hlast k (by omega)) hstep'

end Run

/-! ## Every run -/

/-- A host between two passes, its cards accounted for, is one whose passes keep what they rest on. -/
theorem run_sound {ρ : (passes stamp inUse).Endless} (hkept : (ρ.state 0).Kept)
    (hidle : (ρ.state 0).dispatcher.stage = .idle) (n : ℕ) : Sound inUse (ρ.state n) :=
  ρ.invariant (fun _ _ _ hsound hstep => (step_cases hsound hstep).1) ⟨hkept, .inl hidle⟩ n

/-- A waiting job is one the host has. -/
theorem Waiting.mem_keys {s : Service} {r : Request} (h : s.Waiting r) : r.jobId ∈ s.jobs.keys := by
  obtain ⟨⟨-, dir, hdir, -⟩, -⟩ := h
  exact Dict.mem_keys.mpr ⟨dir, hdir⟩

section Front
variable {ρ : (passes stamp inUse).Endless} (hsound : ∀ n, Sound inUse (ρ.state n))
  (hlands : Lands ρ)
include hsound hlands

/-- **The front of the queue**: if no job up to some place in dispatch order is stopped any more, and
one there that the host could give its cards waits again and again, some job is at the front for
good. -/
theorem exists_front {top : Key}
    (hrest : ∀ j ∈ (ρ.state 0).jobs.keys, (ρ.state 0).rank j ≤ top →
      ∀ᶠ n in atTop, j ∉ (ρ.state n).orders stamp inUse (ρ.label n))
    (hwaits : ∃ᶠ n in atTop, ∃ r, (ρ.state n).Waiting r ∧
      (r.gpus : Int) ≤ (ρ.state n).oursFor inUse r ∧ (ρ.state 0).rank r.jobId ≤ top) :
    ∃ r, ∀ᶠ n in atTop, (ρ.state n).Fronts inUse r := by
  classical
  obtain ⟨theirs, hothers⟩ := others_settle hsound hlands
  -- what the host could give is the same from some point on
  obtain ⟨ours, hours⟩ : ∃ ours : Request → Int, ∀ᶠ n in atTop, ∀ q,
      (ρ.state n).oursFor inUse q = ours q := by
    refine ⟨fun q => (ρ.state 0).dispatcher.cards.owned.length
      + if q.borrows then ((ρ.state 0).dispatcher.cards.shared.length : Int) - theirs else 0, ?_⟩
    filter_upwards [hothers] with n hn q
    rw [oursFor, hn.1, (run_same hsound n).cards]
  have hknown : ∀ n q, (ρ.state n).Waiting q → q.jobId ∈ (ρ.state 0).jobs.keys ∧
      (ρ.state 0).asks q.jobId = some q := fun n q hq =>
    ⟨(run_same hsound n).keys.mp hq.mem_keys, by rw [← run_asks hsound n]; exact hq.2⟩
  -- of the jobs queued for good that the host could give their cards, the first in dispatch order
  let ready : Finset JobId := (ρ.state 0).jobs.keys.toFinset.filter fun j =>
    (ρ.state 0).rank j ≤ top ∧ (∀ᶠ n in atTop, (ρ.state n).Queued j) ∧
      ∃ r, (ρ.state 0).asks j = some r ∧ (r.gpus : Int) ≤ ours r
  have hready : ready.Nonempty := by
    have hone : ∃ᶠ n in atTop, ∃ j ∈ (ρ.state 0).jobs.keys, (ρ.state n).Queued j ∧
        (ρ.state 0).rank j ≤ top ∧ ∃ r, (ρ.state 0).asks j = some r ∧ (r.gpus : Int) ≤ ours r := by
      refine (hwaits.and_eventually hours).mono fun n hboth => ?_
      obtain ⟨⟨r, hr, hgpus, htop⟩, hn⟩ := hboth
      obtain ⟨hkey, hasks⟩ := hknown n r hr
      exact ⟨r.jobId, hkey, hr.1, htop, r, hasks, hn r ▸ hgpus⟩
    obtain ⟨j, hj, hagain⟩ := again_of_finite hone
    obtain ⟨n, -, -, htop, hcould⟩ := again_after hagain 0
    refine ⟨j, Finset.mem_filter.mpr ⟨List.mem_toFinset.mpr hj, htop, ?_, hcould⟩⟩
    refine (queued_settles hsound hlands (hrest j hj htop)).resolve_right fun hnever => ?_
    exact hagain (hnever.mono fun n hn hnow => hn hnow.1)
  obtain ⟨first, hfirst, hleast⟩ := Finset.exists_min_image ready (ρ.state 0).rank hready
  obtain ⟨hkey, htop, hqueued, r, hasks, hgpus⟩ := Finset.mem_filter.mp hfirst
  rw [List.mem_toFinset] at hkey
  obtain rfl : r.jobId = first := asks_jobId hasks
  refine ⟨r, ?_⟩
  have hahead : ∀ᶠ n in atTop, ∀ j ∈ (ρ.state 0).jobs.keys, (ρ.state n).Queued j →
      (ρ.state 0).rank j < (ρ.state 0).rank r.jobId → ∀ q, (ρ.state 0).asks j = some q →
        ours q < q.gpus := by
    refine eventually_all_mem fun j hj => ?_
    by_cases hlt : (ρ.state 0).rank j < (ρ.state 0).rank r.jobId
    · rcases queued_settles hsound hlands (hrest j hj (le_trans hlt.le htop)) with halways | hnever
      · refine Eventually.of_forall fun n _ _ q hq => ?_
        by_contra hcould
        have hin : j ∈ ready := Finset.mem_filter.mpr
          ⟨List.mem_toFinset.mpr hj, le_trans hlt.le htop, halways, q, hq, not_lt.mp hcould⟩
        exact absurd (hleast j hin) (not_le.mpr hlt)
      · exact hnever.mono fun n hn hnow => absurd hnow hn
    · exact Eventually.of_forall fun n _ hnot => absurd hnot hlt
  filter_upwards [hqueued, hours, hahead] with n hnow hn hless
  refine ⟨⟨hnow, by rw [run_asks hsound n]; exact hasks⟩, by rw [hn]; exact hgpus, fun q hq hlt => ?_⟩
  obtain ⟨hqKey, hqAsks⟩ := hknown n q hq
  rw [hn]
  refine hless q.jobId hqKey hq.1 ?_ q hqAsks
  rw [← asks_key hqAsks, ← asks_key hasks]
  exact hlt

end Front

/-- **Automatic preemption orders finitely many stops.** -/
theorem finitely_many_stops (ρ : (passes stamp inUse).Endless) (hkept : (ρ.state 0).Kept)
    (hidle : (ρ.state 0).dispatcher.stage = .idle) (hlands : Lands ρ) :
    {n | (ρ.state n).orders stamp inUse (ρ.label n) ≠ []}.Finite := by
  classical
  have hsound := run_sound hkept hidle
  by_contra hinfinite
  have hstops : ∃ᶠ n in atTop, (ρ.state n).orders stamp inUse (ρ.label n) ≠ [] :=
    Nat.frequently_atTop_iff_infinite.mpr hinfinite
  -- what is stopped, and what for
  have hfor : ∀ n j, j ∈ (ρ.state n).orders stamp inUse (ρ.label n) →
      j ∈ (ρ.state 0).jobs.keys ∧ ∃ r, (ρ.state n).Waiting r ∧
        (r.gpus : Int) ≤ (ρ.state n).oursFor inUse r ∧
        (ρ.state 0).rank r.jobId < (ρ.state 0).rank j := by
    intro n j hj
    obtain ⟨now, hlabel, hlisted⟩ := orders_label hsound (List.ne_nil_of_mem hj)
    rw [hlabel] at hj
    obtain ⟨hkey, r, hr, hgpus, hlt⟩ := stopped_for (hsound n).kept hlisted hj
    have hsame := run_same hsound n
    rw [hsame.rank, hsame.rank] at hlt
    exact ⟨hsame.keys.mp hkey, r, hr, hgpus, hlt⟩
  -- the first job in dispatch order that is stopped again and again
  let often : Finset JobId := (ρ.state 0).jobs.keys.toFinset.filter fun j =>
    ∃ᶠ n in atTop, j ∈ (ρ.state n).orders stamp inUse (ρ.label n)
  have hoften : often.Nonempty := by
    have hone : ∃ᶠ n in atTop, ∃ j ∈ (ρ.state 0).jobs.keys,
        j ∈ (ρ.state n).orders stamp inUse (ρ.label n) := by
      refine hstops.mono fun n hn => ?_
      obtain ⟨j, hj⟩ := List.exists_mem_of_ne_nil _ hn
      exact ⟨j, (hfor n j hj).1, hj⟩
    obtain ⟨j, hj, hagain⟩ := again_of_finite hone
    exact ⟨j, Finset.mem_filter.mpr ⟨List.mem_toFinset.mpr hj, hagain⟩⟩
  obtain ⟨first, hfirst, hleast⟩ := Finset.exists_min_image often (ρ.state 0).rank hoften
  obtain ⟨-, hagain⟩ := Finset.mem_filter.mp hfirst
  have hrest : ∀ j ∈ (ρ.state 0).jobs.keys, (ρ.state 0).rank j < (ρ.state 0).rank first →
      ∀ᶠ n in atTop, j ∉ (ρ.state n).orders stamp inUse (ρ.label n) := by
    intro j hj hlt
    refine not_frequently.mp fun hmore => ?_
    exact absurd (hleast j (Finset.mem_filter.mpr ⟨List.mem_toFinset.mpr hj, hmore⟩))
      (not_le.mpr hlt)
  -- one of those it is stopped for, again and again
  obtain ⟨w, -, hw⟩ : ∃ w ∈ (ρ.state 0).jobs.keys, ∃ᶠ n in atTop, ∃ r, r.jobId = w ∧
      (ρ.state n).Waiting r ∧ (r.gpus : Int) ≤ (ρ.state n).oursFor inUse r ∧
        (ρ.state 0).rank w < (ρ.state 0).rank first := by
    refine again_of_finite (hagain.mono fun n hn => ?_)
    obtain ⟨-, r, hr, hgpus, hlt⟩ := hfor n first hn
    exact ⟨r.jobId, (run_same hsound n).keys.mp hr.mem_keys, r, rfl, hr, hgpus, hlt⟩
  obtain ⟨-, -, -, -, -, -, hlt⟩ := again_after hw 0
  obtain ⟨r, hfronts⟩ := exists_front hsound hlands
    (fun j hj hle => hrest j hj (lt_of_le_of_lt hle hlt)) (hw.mono fun n ⟨r, heq, hr, hgpus, _⟩ =>
      ⟨r, hr, hgpus, le_of_eq (congrArg _ heq)⟩)
  exact front_starts hsound hlands hfronts hstops

/-- A filler on the one card, and a better job that waits for it. -/
def fillerInTheWay : Service where
  dispatcher :=
    { pid := 1
      stage := .idle
      running := Dict.empty.set "f" { gpus := ["GPU-0"], attempt := 1 }
      cards := { owned := ["GPU-0"] } }
  jobs :=
    (Dict.empty.set "f"
      { spec := some { jobId := "f", autoPreempt := true }
        state := { status := .running, gpus := ["GPU-0"] } }).set "w"
      { spec := some { jobId := "w", priority := 10 }, state := { priority := 10 } }

theorem fillerInTheWay_running {jobId : JobId} {entry : Running}
    (h : fillerInTheWay.dispatcher.running.get? jobId = some entry) :
    jobId = "f" ∧ entry = { gpus := ["GPU-0"], attempt := 1 } := by
  have hmem := Dict.get?_eq_some.mp h
  obtain ⟨rfl, rfl⟩ := Prod.mk.inj (List.mem_singleton.mp hmem)
  exact ⟨rfl, rfl⟩

theorem fillerInTheWay_jobs {jobId : JobId} {dir : JobDir}
    (h : fillerInTheWay.jobs.get? jobId = some dir) :
    (jobId = "f" ∧ dir.state = { status := .running, gpus := ["GPU-0"] }) ∨
      dir.state = { priority := 10 } := by
  rcases List.mem_cons.mp (Dict.get?_eq_some.mp h) with heq | hmem
  · obtain ⟨rfl, rfl⟩ := Prod.mk.inj heq
    exact .inl ⟨rfl, rfl⟩
  · obtain ⟨rfl, rfl⟩ := Prod.mk.inj (List.mem_singleton.mp hmem)
    exact .inr rfl

theorem fillerInTheWay_kept : fillerInTheWay.Kept where
  cards := by decide
  answers := rfl
  known jobId entry h := by
    obtain ⟨rfl, -⟩ := fillerInTheWay_running h
    decide
  once jobId entry h := by
    obtain ⟨-, rfl⟩ := fillerInTheWay_running h
    decide
  apart j j' entry entry' c h h' _ _ :=
    (fillerInTheWay_running h).1.trans (fillerInTheWay_running h').1.symm
  counted jobId dir h hrunning := by
    rcases fillerInTheWay_jobs h with ⟨rfl, heq⟩ | heq
    · exact ⟨_, rfl, congrArg JobState.gpus heq, congrArg JobState.attempt heq⟩
    · rw [heq] at hrunning
      cases hrunning
  wanted jobId entry h _ := by
    obtain ⟨rfl, -⟩ := fillerInTheWay_running h
    decide
  unasked jobId dir h hqueued := by
    rcases fillerInTheWay_jobs h with ⟨-, heq⟩ | heq
    · rw [heq]
    · rw [heq]

/-- Passes with nothing left to do. -/
def idlePass : ℕ → PassStep
  | 0 => .begins []
  | 1 => .launches 30 "10:30"
  | 2 => .preempts "10:30"
  | n + 3 => idlePass n

/-- The filler is stopped, its runner makes its last write and is reaped, and the better job is
started. -/
def oneStop : ℕ → PassStep
  | 0 => .begins []
  | 1 => .launches 0 "10:00"
  | 2 => .preempts "10:00"
  | 3 => .writes "f" (.stops true 143 "10:01")
  | 4 => .begins ["f"]
  | 5 => .launches 10 "10:10"
  | 6 => .writes "w" (.claims "none" "10:11" ⟨2, none, none, none⟩)
  | 7 => .preempts "10:12"
  | n + 8 => idlePass n

def afterStop : ℕ → Service
  | 0 => fillerInTheWay
  | n + 1 => ((afterStop n).step (fun _ => none) [] (oneStop n)).getD (afterStop n)

/-- From its fourth pass on, it goes round. -/
theorem afterStop_round (n : ℕ) : afterStop (n + 14) = afterStop (n + 11) := by
  induction n with
  | zero => rfl
  | succ n ih =>
    change ((afterStop (n + 14)).step (fun _ => none) [] (idlePass (n + 6))).getD _
      = ((afterStop (n + 11)).step (fun _ => none) [] (idlePass (n + 3))).getD _
    rw [ih]
    rfl

theorem afterStop_all {P : Service → PassStep → Prop} {start : ℕ} (hstart : start ≤ 11)
    (h : ∀ n < 14, start ≤ n → P (afterStop n) (oneStop n)) (n : ℕ) (hn : start ≤ n) :
    P (afterStop n) (oneStop n) := by
  induction n using Nat.strong_induction_on with
  | _ n ih =>
    by_cases hlt : n < 14
    · exact h n hlt hn
    · obtain ⟨k, rfl⟩ := Nat.exists_eq_add_of_le' (not_lt.mp hlt)
      have hround := ih (k + 11) (by omega) (by omega)
      rw [← afterStop_round] at hround
      exact hround

def oneStopRun : (passes (fun _ => none) []).Endless where
  state := afterStop
  label := oneStop
  step n := by
    have hsome : ((afterStop n).step (fun _ => none) [] (oneStop n)).isSome = true := by
      refine @afterStop_all (fun s label => (s.step (fun _ => none) [] label).isSome = true) 0
        (by omega) ?_ n (Nat.zero_le n)
      decide +kernel
    change (afterStop n).step (fun _ => none) [] (oneStop n) = some (Option.getD _ _)
    rw [Option.getD_of_ne_none (Option.isSome_iff_ne_none.mp hsome)]

/-- Only the filler is ever stopped, and it is reaped at the start of the second pass. -/
theorem oneStopRun_lands : Lands oneStopRun := by
  intro n jobId hstopping
  obtain ⟨entry, hentry, hleaving⟩ := hstopping
  have hmem : (jobId, entry) ∈ (afterStop n).dispatcher.running.entries :=
    Dict.get?_eq_some.mp hentry
  rcases Nat.lt_or_ge n 5 with hlt | hge
  · refine ⟨5, hlt.le, ?_⟩
    change jobId ∉ (afterStop 5).dispatcher.running.keys
    exact List.not_mem_nil
  · have hnone := @afterStop_all (fun s _ => (s.dispatcher.running.entries.all fun p =>
      ! Dispatcher.leaving s.jobs p.1 p.2) = true) 5 (by omega) (by decide +kernel) n hge
    have hnot := List.all_eq_true.mp hnone _ hmem
    change Dispatcher.leaving (afterStop n).jobs jobId entry = true at hleaving
    rw [hleaving] at hnot
    cases hnot

/-- The filler is stopped, and that is one of finitely many stops. -/
theorem finitely_many_stops_filler :
    (oneStopRun.state 2).orders (fun _ => none) [] (oneStopRun.label 2) = ["f"] ∧
      {n | (oneStopRun.state n).orders (fun _ => none) [] (oneStopRun.label n) ≠ []}.Finite :=
  ⟨rfl, finitely_many_stops oneStopRun fillerInTheWay_kept rfl oneStopRun_lands⟩

end Service

end Gpuc.Host
