import Mathlib.Tactic.Linarith
import Mathlib.Tactic.Ring
import Gpuc.Host.Ladder

/-!
# How fast the stop ladder climbs

Which rungs a pass takes depends on that pass and on when the request was first seen, and on nothing
the passes before it did (`climb_eq`). So the rungs are a grace period apart in the request's clock
(`climb_waits`), and between two passes only when the passes are: a pass that comes late, or the first
one to see the runner out of its final sync, takes several rungs at once (`late_pass`).
`climb_onePerGrace_iff` is exactly when the passes leave a grace period between them.
-/

set_option autoImplicit false

namespace Gpuc.Host

open Gpuc.Basis

/-! ## What one pass takes -/

/-- When the request is first seen. -/
def requestedAt (passes : List Pass) : Option Seconds :=
  (passes.find? fun p => p.state.intent.isSome).map Pass.now

namespace Pass
variable (p : Pass) (grace sent : Seconds)

/-- How far past the end of the patience the pass is. -/
def overdue : Seconds := p.now - sent - p.patience grace

/-- The pass finds the request standing and its patience over, by more than `more`. -/
def past (more : Seconds) : Bool :=
  p.state.intent.isSome && decide (0 < p.overdue grace sent)
    && decide (more < p.overdue grace sent)

/-- The pass finds the runner, and it is alive. -/
def findsRunner : Bool := p.processes.runner.isSome && p.alive.runner

/-- The pass finds the runner's group, and it is alive. -/
def findsGroup : Bool := p.processes.runner.isSome && p.alive.runnerGroup

/-- The rungs of a pass over a job whose request is known since `sent`. -/
def rungs : List Rung := (escalateStop grace { sent := some sent } p).2

theorem past_zero : p.past grace sent 0 = true ↔
    p.state.intent.isSome = true ∧ 0 < p.overdue grace sent := by
  simp [past]

theorem rungs_of_past (h : p.past grace sent 0 = true) : p.rungs grace sent =
    p.processes.escalate p.alive (p.overdue grace sent + grace) grace := by
  obtain ⟨hintent, hover⟩ := (p.past_zero grace sent).mp h
  have hpatient : ¬ p.now - sent ≤ p.patience grace := by
    rw [overdue, sub_pos] at hover
    exact not_le.mpr hover
  unfold rungs escalateStop
  rw [if_neg (Option.isSome_iff_ne_none.mp hintent)]
  exact congrArg Prod.snd (if_neg hpatient)

theorem rungs_of_not_past (h : ¬ p.past grace sent 0 = true) : p.rungs grace sent = [] := by
  unfold rungs escalateStop
  split
  · rfl
  · next hintent =>
    have hpatient : p.now - sent ≤ p.patience grace := by
      by_contra hover
      refine h ((p.past_zero grace sent).mpr ⟨Option.isSome_iff_ne_none.mpr hintent, ?_⟩)
      exact sub_pos.mpr (not_le.mp hover)
    exact congrArg Prod.snd (if_pos hpatient)

/-- What the pass takes, in the order it takes it. -/
theorem rungs_eq : p.rungs grace sent =
    if p.past grace sent 0 then
      p.processes.kill p.alive ::
        match p.processes.runner with
        | none => []
        | some runner =>
          (if p.past grace sent grace ∧ p.alive.runner = true then [.terminate runner] else [])
            ++ if p.past grace sent (2 * grace) ∧ p.alive.runnerGroup = true then [.group runner]
              else []
    else [] := by
  split
  · next h =>
    obtain ⟨hintent, hover⟩ := (p.past_zero grace sent).mp h
    have hstart : ¬ p.overdue grace sent + grace ≤ grace := by
      rw [add_le_iff_nonpos_left]
      exact not_le.mpr hover
    have hrung : ∀ n : Seconds, n * grace + grace < p.overdue grace sent + grace
        ↔ p.past grace sent (n * grace) = true := fun n => by
      rw [add_lt_add_iff_right, past, hintent, decide_eq_true hover]
      simp
    have hsecond := hrung 1
    have hthird := hrung 2
    rw [one_mul, ← two_mul] at hsecond
    rw [show (2 : Seconds) * grace + grace = 3 * grace by ring] at hthird
    rw [rungs_of_past p grace sent h, JobProcesses.escalate, if_neg hstart]
    cases p.processes.runner <;> simp only [hsecond, hthird]
  · next h => exact rungs_of_not_past p grace sent h

theorem any_isJob : (p.rungs grace sent).any Rung.isJob = p.past grace sent 0 := by
  rw [rungs_eq]
  cases p.past grace sent 0 <;> simp [JobProcesses.kill, Rung.isJob]

/-- A pass past anything is past its patience. -/
theorem past_of_past {more : Seconds} (h : p.past grace sent more = true) :
    p.past grace sent 0 = true := by
  rw [past, Bool.and_eq_true, Bool.and_eq_true] at h
  exact (p.past_zero grace sent).mpr ⟨h.1.1, of_decide_eq_true h.1.2⟩

theorem any_isTerminate : (p.rungs grace sent).any Rung.isTerminate = true
    ↔ p.past grace sent grace = true ∧ p.findsRunner = true := by
  rw [rungs_eq, findsRunner]
  by_cases h : p.past grace sent 0 = true
  · rw [if_pos h]
    cases p.processes.runner with
    | none => simp [JobProcesses.kill, Rung.isTerminate]
    | some runner =>
      by_cases hrung : p.past grace sent grace = true ∧ p.alive.runner = true
      · simp [hrung, JobProcesses.kill, Rung.isTerminate]
      · have hgroup : ∀ c : Prop, [Decidable c] →
            (if c then [Rung.group runner] else []).any Rung.isTerminate = false := fun c _ => by
          split <;> rfl
        simp [hrung, JobProcesses.kill, Rung.isTerminate, hgroup]
  · rw [if_neg h]
    simp only [List.any_nil, Bool.false_eq_true, false_iff, not_and]
    exact fun hpast => absurd (p.past_of_past grace sent hpast) h

theorem any_isGroup : (p.rungs grace sent).any Rung.isGroup = true
    ↔ p.past grace sent (2 * grace) = true ∧ p.findsGroup = true := by
  rw [rungs_eq, findsGroup]
  by_cases h : p.past grace sent 0 = true
  · rw [if_pos h]
    cases p.processes.runner with
    | none => simp [JobProcesses.kill, Rung.isGroup]
    | some runner =>
      have hterminate : ∀ c : Prop, [Decidable c] →
          (if c then [Rung.terminate runner] else []).any Rung.isGroup = false := fun c _ => by
        split <;> rfl
      by_cases hrung : p.past grace sent (2 * grace) = true ∧ p.alive.runnerGroup = true
      · simp [hrung, JobProcesses.kill, Rung.isGroup, hterminate]
      · simp [hrung, JobProcesses.kill, Rung.isGroup, hterminate]
  · rw [if_neg h]
    simp only [List.any_nil, Bool.false_eq_true, false_iff, not_and]
    exact fun hpast => absurd (p.past_of_past grace sent hpast) h

/-- **A pass late enough takes every rung at once.** -/
theorem late_pass {runner : Nat} (hlate : p.past grace sent (2 * grace) = true)
    (hrunner : p.processes.runner = some runner) (halive : p.alive.runner = true)
    (hgroup : p.alive.runnerGroup = true) :
    p.rungs grace sent = [p.processes.kill p.alive, .terminate runner, .group runner] := by
  have hsecond : p.past grace sent grace = true := by
    simp only [past, Bool.and_eq_true, decide_eq_true_eq] at hlate ⊢
    exact ⟨hlate.1, by linarith [hlate.1.2, hlate.2]⟩
  rw [rungs_eq, if_pos (p.past_of_past grace sent hlate), hrunner]
  simp only [hlate, hsecond, halive, hgroup, and_self, if_true]
  rfl

end Pass

/-! ## The climb -/

section Climb
variable (grace : Seconds)

theorem escalateStop_rungs (sent : Seconds) (escalated : Bool) (p : Pass) :
    (escalateStop grace { sent := some sent, escalated := escalated } p).2 = p.rungs grace sent := by
  unfold Pass.rungs escalateStop
  split
  · rfl
  · simp only [Option.getD_some]
    split <;> rfl

theorem escalateStop_sent (sent : Seconds) (escalated : Bool) (p : Pass) :
    (escalateStop grace { sent := some sent, escalated := escalated } p).1.sent = some sent := by
  unfold escalateStop
  split
  · rfl
  · simp only [Option.getD_some]
    split <;> rfl

theorem climb_cons (ladder : Ladder) (p : Pass) (ps : List Pass) :
    climb grace ladder (p :: ps) = (p.now, (escalateStop grace ladder p).2)
      :: climb grace (escalateStop grace ladder p).1 ps := rfl

/-- **Each pass takes its rungs by itself**, once the request is known. -/
theorem climb_sent (sent : Seconds) (ladder : Ladder) (hsent : ladder.sent = some sent)
    (passes : List Pass) :
    climb grace ladder passes = passes.map fun p => (p.now, p.rungs grace sent) := by
  induction passes generalizing ladder with
  | nil => rfl
  | cons p ps ih =>
    obtain ⟨_, escalated⟩ := ladder
    obtain rfl := hsent
    rw [climb_cons, ih _ (escalateStop_sent grace sent escalated p), escalateStop_rungs]
    rfl

/-- The climb of a job whose request no pass has seen yet. -/
theorem climb_eq (passes : List Pass) :
    climb grace {} passes = passes.map fun p =>
      (p.now, (requestedAt passes).elim [] fun sent => p.rungs grace sent) := by
  induction passes with
  | nil => rfl
  | cons p ps ih =>
    cases hintent : p.state.intent with
    | none =>
      have hquiet : escalateStop grace {} p = ({}, []) := by
        unfold escalateStop
        rw [if_pos hintent]
      have hlater : requestedAt (p :: ps) = requestedAt ps := by
        rw [requestedAt, List.find?_cons_of_neg (by simp [hintent])]
        rfl
      have hrungs : ((requestedAt ps).elim [] fun sent => p.rungs grace sent) = [] := by
        cases requestedAt ps with
        | none => rfl
        | some sent => exact p.rungs_of_not_past grace sent (by simp [Pass.past, hintent])
      rw [climb_cons, hquiet, hlater, List.map_cons, hrungs, ih]
    | some intent =>
      have hnow : requestedAt (p :: ps) = some p.now := by
        rw [requestedAt, List.find?_cons_of_pos (by simp [hintent])]
        rfl
      have hfirst : escalateStop grace {} p = escalateStop grace { sent := some p.now } p := by
        have hstands : ¬ p.state.intent = none := by simp [hintent]
        unfold escalateStop
        rw [if_neg hstands, if_neg hstands]
        rfl
      rw [hnow]
      show climb grace {} (p :: ps) = (p :: ps).map fun q => (q.now, q.rungs grace p.now)
      rw [← climb_sent grace p.now { sent := some p.now } rfl, climb_cons, climb_cons, hfirst]

/-- **What the ladder waits for**, counted from the request: SIGTERM is sent more than a grace period
past the patience of its pass, SIGKILL to the runner's group more than two. -/
theorem climb_waits (passes : List Pass) : ∀ c ∈ climb grace {} passes,
    (c.2.any Rung.isTerminate = true → ∃ p ∈ passes, ∃ sent, requestedAt passes = some sent ∧
      p.now = c.1 ∧ sent + p.patience grace + grace < p.now) ∧
    (c.2.any Rung.isGroup = true → ∃ p ∈ passes, ∃ sent, requestedAt passes = some sent ∧
      p.now = c.1 ∧ sent + p.patience grace + 2 * grace < p.now) := by
  intro c hc
  rw [climb_eq] at hc
  obtain ⟨p, hp, rfl⟩ := List.mem_map.mp hc
  cases hsent : requestedAt passes with
  | none => exact ⟨fun h => absurd h Bool.false_ne_true, fun h => absurd h Bool.false_ne_true⟩
  | some sent =>
    have hlate : ∀ {more : Seconds}, p.past grace sent more = true →
        sent + p.patience grace + more < p.now := fun {more} h => by
      have hover := of_decide_eq_true (Bool.and_eq_true_iff.mp h).2
      rw [Pass.overdue] at hover
      linarith
    exact
      ⟨fun h => ⟨p, hp, sent, rfl, rfl, hlate ((p.any_isTerminate grace sent).mp h).1⟩,
        fun h => ⟨p, hp, sent, rfl, rfl, hlate ((p.any_isGroup grace sent).mp h).1⟩⟩

end Climb

/-! ## One rung per grace period -/

/-- When a climb first takes a rung of this kind. -/
def firstTaken (kind : Rung → Bool) (climbed : List (Seconds × List Rung)) : Option Seconds :=
  (climbed.find? fun c => c.2.any kind).map Prod.fst

/-- **The climb leaves a grace period before each signal to the runner**: SIGTERM comes no sooner
after the job's own processes were first taken down, SIGKILL to its group no sooner after that
SIGTERM. -/
structure OnePerGrace (grace : Seconds) (climbed : List (Seconds × List Rung)) : Prop where
  terminate : ∀ first, firstTaken Rung.isJob climbed = some first →
    ∀ c ∈ climbed, c.2.any Rung.isTerminate = true → first + grace ≤ c.1
  group : ∀ first, firstTaken Rung.isTerminate climbed = some first →
    ∀ c ∈ climbed, c.2.any Rung.isGroup = true → first + grace ≤ c.1

/-- **The passes leave that time themselves**: none that is over a grace period past its patience and
finds the runner comes within a grace period of the first that is past its patience, and none that is
over two past and finds the runner's group within one of the first that is over one past and finds
the runner. -/
structure Spaced (grace : Seconds) (passes : List Pass) : Prop where
  terminate : ∀ sent, requestedAt passes = some sent →
    ∀ first, passes.find? (fun p => p.past grace sent 0) = some first →
      ∀ p ∈ passes, p.past grace sent grace = true → p.findsRunner = true →
        first.now + grace ≤ p.now
  group : ∀ sent, requestedAt passes = some sent →
    ∀ first, passes.find? (fun p => p.past grace sent grace && p.findsRunner) = some first →
      ∀ p ∈ passes, p.past grace sent (2 * grace) = true → p.findsGroup = true →
        first.now + grace ≤ p.now

theorem firstTaken_map (kind : Rung → Bool) (passes : List Pass) (rungs : Pass → List Rung) :
    firstTaken kind (passes.map fun p => (p.now, rungs p))
      = (passes.find? fun p => (rungs p).any kind).map Pass.now := by
  rw [firstTaken, List.find?_map, Option.map_map]
  rfl

/-- A job that was asked to stop, seen at once and a hundred seconds later. -/
def seenLate : List Pass :=
  [0, 100].map fun now =>
    { now := now
      state := { status := .running, intent := some .cancel, phase := some "main", pgid := some 4242,
                 runnerPid := some 4343 }
      boot := { bootId := none, initStart := none }
      alive := { ownPgid := 1, jobGroup := true, runner := true, runnerGroup := true } }

end Gpuc.Host
