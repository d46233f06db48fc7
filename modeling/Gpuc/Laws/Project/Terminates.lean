import Mathlib.Order.WellFounded
import Gpuc.Basis.Weight
import Gpuc.Laws.Project.Rounds

/-!
# The replay ends

A round that moves the clock on leaves fewer releases to come, but one that stops jobs puts them back
in the queue and plans again at the same clock, where they may be started and stopped once more. What
goes down over every round is, in this order (`measure`): the excess of the live jobs, what is pending
after the launches, each job outweighing all behind it, and the releases to come.

The law (`project_terminates`): on every question, `project` answers after finitely many rounds, and
with more rounds to spare answers the same. Nothing is asked of the estimates.
-/

set_option autoImplicit false

namespace Gpuc.Host

open Gpuc.Basis

namespace Replay

/-- What a queue weighs among the jobs of a question: a job outweighs all behind it. -/
def queueWeight (jobs queue : List Request) : Nat :=
  ∑ r ∈ queue.toFinset, weight jobs.toFinset Request.key r

/-- **What goes down over a round.** -/
def measure (jobs : List Request) (e : Elsewhere) (s : Replay) : ℕ ×ₗ ℕ ×ₗ ℕ :=
  toLex (s.excess, toLex (queueWeight jobs (s.launched e).pending, (s.launched e).later.length))

section Weight
variable {jobs : List Request} (hids : (jobs.map Request.jobId).Nodup)
include hids

theorem key_injOn {queue : List Request} (h : ∀ r ∈ queue, r ∈ jobs) :
    Set.InjOn Request.key queue.toFinset := by
  intro a ha b hb hkey
  have hid : a.jobId = b.jobId := (Prod.mk.inj (toLex.injective hkey)).2
  exact List.inj_on_of_nodup_map hids (h a (List.mem_toFinset.mp ha))
    (h b (List.mem_toFinset.mp hb)) hid

/-- A job launched for jobs behind it makes the queue lighter. -/
theorem queueWeight_exchange {queue queue' : List Request} {r : Request}
    (hqueue' : ∀ q ∈ queue', q ∈ jobs) (hr : r ∈ queue) (hout : r ∉ queue')
    (hbehind : ∀ q ∈ queue', q ∉ queue → r.key < q.key) :
    queueWeight jobs queue' < queueWeight jobs queue := by
  refine sum_weight_exchange (a := r) (fun q hq => ?_) (key_injOn hids hqueue')
    (List.mem_toFinset.mpr hr) (fun hin => hout (List.mem_toFinset.mp hin)) fun q hq hnot => ?_
  · exact List.mem_toFinset.mpr (hqueue' q (List.mem_toFinset.mp hq))
  · exact hbehind q (List.mem_toFinset.mp hq) fun hin => hnot (List.mem_toFinset.mpr hin)

end Weight

variable {jobs : List Request} {s : Replay}

theorem launched_decisions (h : Sound jobs s) (e : Elsewhere) :
    (s.launched e).decisions = (s.planned e).decisions := by
  rw [launched_eq h e, launchAll_decisions]

/-- **What a round with another to come does**: it stops jobs, or moves the clock to the next
release. -/
theorem round_cases (h : Sound jobs s) (e : Elsewhere) {next : Replay}
    (hround : s.round e = (next, true)) :
    (stuckPreempts (s.planned e).decisions ≠ [] ∧
        next = (s.launched e).stopAll (stuckPreempts (s.planned e).decisions)) ∨
      ∃ time, (s.launched e).later.min? = some time ∧
        next = { s.launched e with clock := time } := by
  have hdecisions := launched_decisions h e
  unfold round at hround
  cases hstops : stuckPreempts (s.launched e).decisions with
  | cons jobId jobIds =>
    simp only [hstops] at hround
    rw [← hdecisions, hstops]
    exact .inl ⟨List.cons_ne_nil _ _, (Prod.mk.inj hround).1.symm⟩
  | nil =>
    simp only [hstops] at hround
    cases hmin : (s.launched e).later.min? with
    | none =>
      simp only [hmin] at hround
      cases (Prod.mk.inj hround).2
    | some time =>
      simp only [hmin] at hround
      exact .inr ⟨time, rfl, (Prod.mk.inj hround).1.symm⟩

theorem Sound.next (h : Sound jobs s) (e : Elsewhere) {next : Replay}
    (hround : s.round e = (next, true)) : Sound jobs next := by
  rcases round_cases h e hround with ⟨-, rfl⟩ | ⟨time, -, rfl⟩
  · exact (h.launched e).stopAll _
  · exact (h.launched e).tick time

/-- The queue is in order when a round begins. -/
theorem next_sorted (h : Sound jobs s) (e : Elsewhere)
    (hsorted : s.pending.Pairwise (fun a b => a.key ≤ b.key)) {next : Replay}
    (hround : s.round e = (next, true)) :
    next.pending.Pairwise (fun a b => a.key ≤ b.key) := by
  rcases round_cases h e hround with ⟨-, rfl⟩ | ⟨time, -, rfl⟩
  · exact sortedBy_pairwise _ _
  · show (s.launched e).pending.Pairwise _
    rw [launched_pending h e]
    exact hsorted.sublist List.filter_sublist

theorem mem_launched (h : Sound jobs s) (e : Elsewhere) {r : Request} :
    r ∈ (s.launched e).pending ↔ r ∈ s.pending ∧ r ∉ (s.roundLaunches e).map Prod.fst := by
  rw [launched_pending h e, List.mem_filter, decide_eq_true_iff]

/-- The releases to come, once the clock stands at the first of them. -/
theorem later_tick {time : Seconds} (hmin : s.later.min? = some time) :
    ({ s with clock := time } : Replay).later.length < s.later.length := by
  obtain ⟨hmem, -⟩ := List.min?_eq_some_iff.mp hmin
  have hlater : ∀ clock : Seconds, ({ s with clock := clock } : Replay).later.length
      = s.cards.countP fun card => (card.releaseS.filter fun release => clock < release).isSome :=
    fun clock => List.length_filterMap_eq_countP
  have hlater' := hlater s.clock
  obtain ⟨card, hcard, hrelease⟩ := List.mem_filterMap.mp hmem
  obtain ⟨hrelease, hlt⟩ := Option.filter_eq_some_iff.mp hrelease
  have hclock : s.clock < time := of_decide_eq_true hlt
  rw [hlater, hlater']
  refine countP_lt (fun c _ hc => ?_) hcard ?_ ?_
  · obtain ⟨release, hfilter⟩ := Option.isSome_iff_exists.mp hc
    obtain ⟨hrel, hlate⟩ := Option.filter_eq_some_iff.mp hfilter
    refine Option.isSome_iff_exists.mpr ⟨release, Option.filter_eq_some_iff.mpr ⟨hrel, ?_⟩⟩
    exact decide_eq_true (hclock.trans (of_decide_eq_true hlate))
  · simp [hrelease]
  · simp [hrelease, hclock]

/-- **A round that only moves the clock on** leaves a lighter queue, or the same with fewer releases
to come. -/
theorem tick_decreases (h : Sound jobs s) (hids : (jobs.map Request.jobId).Nodup) (e : Elsewhere)
    {time : Seconds} (hmin : s.later.min? = some time) :
    let after : Replay := { s with clock := time }
    queueWeight jobs (after.launched e).pending < queueWeight jobs s.pending ∨
      ((after.launched e).pending = s.pending ∧
        (after.launched e).later.length < s.later.length) := by
  intro after
  have hafter : Sound jobs after := h.tick time
  by_cases hnone : after.roundLaunches e = []
  · refine .inr ⟨?_, ?_⟩
    · rw [launched_pending hafter e, hnone]
      exact List.filter_eq_self.mpr fun _ _ => rfl
    · rw [launched_eq hafter e, hnone]
      exact later_tick hmin
  · obtain ⟨l, hl⟩ := List.exists_mem_of_ne_nil _ hnone
    have hlaunch : l.1 ∈ (after.roundLaunches e).map Prod.fst := List.mem_map_of_mem hl
    refine .inl (queueWeight_exchange hids (r := l.1) (hafter.launched e).pending ?_ ?_ ?_)
    · exact (launchable hafter e).pending.subset hlaunch
    · exact fun hin => ((mem_launched hafter e).mp hin).2 hlaunch
    · exact fun q hq hout => absurd ((mem_launched hafter e).mp hq).1 hout

/-- **Every round with another to come makes the measure smaller.** -/
theorem round_decreases (h : Sound jobs s) (hids : (jobs.map Request.jobId).Nodup) (e : Elsewhere)
    (hsorted : s.pending.Pairwise (fun a b => a.key ≤ b.key)) {next : Replay}
    (hround : s.round e = (next, true)) : next.measure jobs e < s.measure jobs e := by
  have hnext := h.next e hround
  rw [measure, measure, Prod.Lex.toLex_lt_toLex]
  rcases round_cases h e hround with ⟨hstops, rfl⟩ | ⟨time, hmin, rfl⟩
  · rcases launches_of_stops h e hsorted hstops with hlt | ⟨hle, r, hr, hlaunch, hbehind⟩
    · exact .inl hlt
    · refine hle.lt_or_eq.imp id fun heq => ⟨heq, Prod.Lex.toLex_lt_toLex.mpr (.inl ?_)⟩
      refine queueWeight_exchange hids (r := r) (hnext.launched e).pending hr ?_ fun q hq => ?_
      · exact fun hin => ((mem_launched hnext e).mp hin).2 hlaunch
      · exact hbehind q ((mem_launched hnext e).mp hq).1
  · have hlaunched := h.launched e
    have hclock : (s.launched e).clock ≤ time := by
      obtain ⟨card, -, hrelease⟩ := List.mem_filterMap.mp (List.min?_mem hmin)
      exact (of_decide_eq_true (Option.filter_eq_some_iff.mp hrelease).2).le
    have hle := (excess_tick hlaunched.uuids hclock).trans (excess_launched h e)
    refine hle.lt_or_eq.imp id fun heq => ⟨heq, Prod.Lex.toLex_lt_toLex.mpr ?_⟩
    refine (tick_decreases hlaunched hids e hmin).imp id fun ⟨hpending, hlater⟩ => ⟨?_, hlater⟩
    rw [hpending]

/-- More rounds to spare give the same answer. -/
theorem run_mono {e : Elsewhere} {fuel : Nat} {last : Replay} (h : s.run e fuel = some last)
    (more : Nat) : s.run e (fuel + more) = some last := by
  induction fuel generalizing s with
  | zero => cases h
  | succ fuel ih =>
    rw [Nat.succ_add]
    unfold run at h ⊢
    split at h
    · next hdone => rw [if_pos hdone, h]
    · next hpending =>
      rw [if_neg hpending]
      generalize s.round e = outcome at h ⊢
      obtain ⟨next, more'⟩ := outcome
      cases more' with
      | true => exact ih h
      | false => exact h

/-- **The replay ends.** -/
theorem run_terminates (h : Sound jobs s) (hids : (jobs.map Request.jobId).Nodup) (e : Elsewhere)
    (hsorted : s.pending.Pairwise (fun a b => a.key ≤ b.key)) :
    ∃ fuel last, s.run e fuel = some last := by
  induction hm : s.measure jobs e using WellFoundedLT.induction generalizing s with
  | _ m ih =>
    by_cases hdone : s.pending = []
    · exact ⟨1, s, by rw [run, if_pos hdone]⟩
    · cases hround : s.round e with
      | mk next more =>
        cases more with
        | true =>
          obtain ⟨fuel, last, hlast⟩ := ih _ (hm ▸ round_decreases h hids e hsorted hround)
            (h.next e hround) (next_sorted h e hsorted hround) rfl
          exact ⟨fuel + 1, last, by rw [run, if_neg hdone, hround]; exact hlast⟩
        | false => exact ⟨1, next, by rw [run, if_neg hdone, hround]⟩

end Replay

section Question
variable {requests : List Request} {cards : List Card} {running : List (Preemptable × Request)}

/-- The running jobs are there once. -/
theorem Question.running_nodup (h : Question requests cards running) :
    (running.map fun p => p.1.jobId).Nodup := by
  have hnames : running.map (fun p => p.1.jobId) = (running.map Prod.snd).map Request.jobId := by
    rw [List.map_map]
    exact List.map_congr_left fun p hp => (Replay.key_jobId (h.again p hp)).symm
  have hids := h.ids
  rw [List.map_append] at hids
  rw [hnames]
  exact hids.of_append_right

/-- **The replay of a question begins sound.** -/
theorem Question.sound (h : Question requests cards running) :
    Replay.Sound (requests ++ running.map Prod.snd) (.initial requests cards running) := by
  have hentries : ∀ {jobId entry}, (Replay.initial requests cards running).stoppable.get? jobId
      = some entry → ∃ p ∈ running, jobId = p.1.jobId ∧ entry.job = p.1 ∧ entry.again = p.2 := by
    intro jobId entry hget
    rw [Replay.initial, Dict.get?_ofList (by rw [List.map_map]; exact h.running_nodup)] at hget
    obtain ⟨p, hp, heq⟩ := List.mem_map.mp hget
    obtain ⟨rfl, rfl⟩ := Prod.mk.inj heq
    exact ⟨p, hp, rfl, rfl, rfl⟩
  have hids := h.ids
  rw [List.map_append] at hids
  refine
    { ids := hids.of_append_left
      pending := fun r hr => List.mem_append_left _ hr
      named := fun jobId entry hget => ?_
      again := fun jobId entry hget => ?_
      among := fun jobId entry hget => ?_
      apart := fun r hr => ?_
      uuids := h.uuids }
  · obtain ⟨p, -, rfl, hjob, -⟩ := hentries hget
    rw [hjob]
  · obtain ⟨p, hp, -, hjob, hagain⟩ := hentries hget
    rw [hjob, hagain]
    exact ⟨List.mem_append_right _ (List.mem_map_of_mem hp), h.again p hp⟩
  · obtain ⟨p, hp, -, hjob, -⟩ := hentries hget
    rw [hjob]
    exact h.among p hp
  · rw [Option.eq_none_iff_forall_ne_some]
    intro entry hget
    obtain ⟨p, hp, hid, -⟩ := hentries hget
    refine List.disjoint_of_nodup_append hids (List.mem_map_of_mem hr) ?_
    rw [hid, ← Replay.key_jobId (h.again p hp)]
    exact List.mem_map_of_mem (List.mem_map_of_mem hp)

/-- **`project` terminates**: with rounds enough it answers, and with more it answers the same. -/
theorem project_terminates (e : Elsewhere) (draining : Bool)
    (h : Question requests cards running) :
    ∃ fuel answer, ∀ more, fuel ≤ more →
      project more requests cards e running draining = some answer := by
  cases draining with
  | true => exact ⟨0, _, fun more _ => rfl⟩
  | false =>
    obtain ⟨fuel, last, hlast⟩ := Replay.run_terminates h.sound h.ids e h.sorted
    refine ⟨fuel, last.answer requests running, fun more hmore => ?_⟩
    obtain ⟨spare, rfl⟩ := Nat.exists_eq_add_of_le hmore
    rw [project, if_neg Bool.false_ne_true, Replay.run_mono hlast spare]
    rfl

end Question

/-- A filler on the only card, which says nothing of its end, and a job ahead of it. -/
def fillerInTheWay : List (Preemptable × Request) :=
  [({ jobId := "f", priority := 90, gpus := ["o"], started := 0, owned := 1, borrowed := 0 },
    { jobId := "f", gpus := 1, borrows := false, priority := 90, fills := true })]

theorem project_terminates_fillerInTheWay :
    ∃ fuel answer, ∀ more, fuel ≤ more →
      project more [{ jobId := "w", gpus := 1, borrows := false, estimateS := some 60 }]
        [⟨"o", false, none⟩] { theirs := 0 } fillerInTheWay = some answer :=
  project_terminates { theirs := 0 } false
    ⟨by decide, by decide, by decide, by decide, by decide⟩

example :
    (project 9 [{ jobId := "w", gpus := 1, borrows := false, estimateS := some 60 }]
      [⟨"o", false, none⟩] { theirs := 0 } fillerInTheWay).map (·.startsInS.entries)
        = some [("w", 0)] := by
  decide +kernel

end Gpuc.Host
