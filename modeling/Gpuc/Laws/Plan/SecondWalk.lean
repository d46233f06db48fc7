import Gpuc.Host.Dispatcher
import Gpuc.Laws.Plan.Replan
import Gpuc.Laws.Plan.Stops

/-!
# The two walks of one pass

A pass walks the queue twice: to launch what fits, and then, with that launched and what can never run
dropped, to find whom to stop (`launch_ready`, `preempt_for_waiting`). The second walk is in step with
the first (`InStep`, with nothing more coming), so it has no gap before the first walk had one.

There it finds the same job. If stopping covers that job's gap the cards it holds went to nobody, and
the gap is what it was. If nothing covers it, fillers may have taken some of its cards: the gap is only
wider then, and what did not cover it before does not now.
-/

set_option autoImplicit false

namespace Gpuc.Host

open Gpuc.Basis

/-- The job a decision leaves with a gap, and the jobs to stop for it. -/
def Decision.stuckOn : Decision → Option (JobId × List JobId)
  | .holds jobId _ _ gap preempts => if gap = 0 then none else some (jobId, preempts)
  | .assigned .. | .steppedOver .. | .fails .. => none

/-- **The first job with a gap**, and the jobs to stop for it. -/
def firstStuck (ds : List Decision) : Option (JobId × List JobId) := ds.findSome? Decision.stuckOn

/-- What `preempt_for_waiting` stops is what stands with that job. -/
theorem preemptForWaiting_eq (stamp : String → Option Seconds) (d : Dispatcher) (jobs : Jobs)
    (inUse : List Uuid) :
    d.preemptForWaiting stamp jobs inUse
      = ((firstStuck (plan ((d.requests jobs).map Prod.snd) (d.pool stamp jobs inUse))).map
          Prod.snd).getD [] := by
  unfold Dispatcher.preemptForWaiting firstStuck
  rw [List.map_findSome?]
  refine congrArg (fun f => (List.findSome? f _).getD []) (funext fun decision => ?_)
  cases decision with
  | holds jobId owned shared gap preempts =>
    by_cases hgap : gap = 0
    · simp [Decision.stuckOn, hgap]
    · simp [Decision.stuckOn, hgap]
  | assigned | steppedOver | fails => rfl

/-! ## Where a walk gets stuck -/

/-- A turn leaves the walk stuck when it leaves a gap. -/
theorem turn_stuck {w : Walk} {r : Request} (h : w.stuck = false) :
    ((w.turn r).2.stuck = false ∧ (w.turn r).1.stuckOn = none) ∨
      ((w.turn r).2.stuck = true ∧ w.turn r = w.waitFor r ∧ w.failureFor r = none ∧
        (w.freeFor r).length < r.gpus ∧ (r.gpus : Int) ≤ w.oursFor r ∧ w.shortFor r ≠ 0) := by
  have hturned := Walk.turned w r
  generalize hd : (w.turn r).1 = d at hturned ⊢
  generalize hafter : (w.turn r).2 = after at hturned ⊢
  cases hturned with
  | fails => exact .inl ⟨h, rfl⟩
  | fits => exact .inl ⟨(Walk.readFor_stuck w r).trans h, rfl⟩
  | fills => exact .inl ⟨(Walk.readFor_stuck w r).trans h, rfl⟩
  | passed => exact .inl ⟨(Walk.readFor_stuck w r).trans h, rfl⟩
  | waits hcap hfree hours =>
    rw [Walk.waitFor_stuck, h, Bool.false_or]
    by_cases hgap : w.shortFor r = 0
    · refine .inl ⟨by simp [hgap], ?_⟩
      simp only [Walk.waitFor, Walk.wait, Decision.stuckOn, if_pos hgap]
    · exact .inr ⟨by simp [hgap], Prod.ext hd hafter, hcap, hfree, hours, hgap⟩

/-- A walk that is not stuck has left no gap. -/
theorem firstStuck_eq_none {pool : Pool} {requests : List Request}
    (h : (walkTo pool requests).stuck = false) : firstStuck (plan requests pool) = none := by
  induction requests using List.reverseRecOn with
  | nil => rfl
  | append_singleton before r ih =>
    have hbefore := walkTo_stuck h
    rw [plan_snoc, firstStuck, List.findSome?_append]
    change ((firstStuck (plan before pool)).or _) = none
    rw [ih hbefore, Option.none_or]
    rw [walkTo_snoc] at h
    rcases turn_stuck (r := r) hbefore with ⟨-, hnone⟩ | ⟨hstuck, -⟩
    · rw [List.findSome?_cons, hnone, List.findSome?_nil]
    · rw [h] at hstuck
      cases hstuck

/-- A walk that is stuck got stuck on one of its requests. -/
theorem exists_firstStuck {pool : Pool} {requests : List Request}
    (h : (walkTo pool requests).stuck = true) :
    ∃ before r rest, requests = before ++ r :: rest ∧ (walkTo pool before).stuck = false ∧
      ((walkTo pool before).turn r).2.stuck = true := by
  induction requests using List.reverseRecOn with
  | nil => cases h
  | append_singleton before r ih =>
    cases hbefore : (walkTo pool before).stuck with
    | true =>
      obtain ⟨front, q, rest, rfl, hfront, hstuck⟩ := ih hbefore
      exact ⟨front, q, rest ++ [r], by simp, hfront, hstuck⟩
    | false =>
      rw [walkTo_snoc] at h
      exact ⟨before, r, [], rfl, hbefore, h⟩

/-- The first job with a gap is the one the walk gets stuck on. -/
theorem firstStuck_eq {pool : Pool} {before : List Request} {r : Request} (rest : List Request)
    (hbefore : (walkTo pool before).stuck = false)
    (hturn : (walkTo pool before).turn r = (walkTo pool before).waitFor r)
    (hgap : (walkTo pool before).shortFor r ≠ 0) :
    firstStuck (plan (before ++ r :: rest) pool)
      = some (r.jobId, (enoughToStart pool.preemptable r.key ((walkTo pool before).shortFor r)
          r.borrows).map Preemptable.jobId) := by
  rw [plan_split, firstStuck, List.findSome?_append]
  change ((firstStuck (plan before pool)).or _) = _
  rw [firstStuck_eq_none hbefore, Option.none_or, List.findSome?_cons, hturn]
  simp only [Walk.waitFor, Walk.wait, Decision.stuckOn, if_neg hgap, Walk.stopsFor,
    Walk.readFor_stuck, Walk.readFor_preemptable, hbefore]
  rw [if_pos ⟨hgap, trivial⟩, (walkTo_spent pool before).preemptable]

/-! ## In step, with nothing more coming -/

section InStep
variable {shared : Nat} {w w' : Walk} {r : Request}

/-- The second walk finds no more cards than the first, so no smaller a gap. -/
theorem InStep.shortFor_le (h : InStep 0 0 shared w w') (hfree : (w.freeFor r).length < r.gpus) :
    w.shortFor r ≤ w'.shortFor r := by
  have hle := (List.subperm_of_subset (Walk.nodup_offered h.distinct' r)
    h.offered_subset).length_le
  have hshort := h.freeFor_short hfree
  have hshift := h.shift
  have htotal := h.total
  rw [Walk.shortFor_eq, Walk.shortFor_eq, Walk.freeFor_of_short hfree,
    Walk.freeFor_of_short hshort]
  cases r.borrows with
  | false =>
    simp only [Bool.false_eq_true, if_false]
    omega
  | true =>
    simp only [if_true]
    omega

/-- With the same cards free for the job, the gap is the same. -/
theorem InStep.shortFor_kept (h : InStep 0 0 shared w w') (hfree : (w.freeFor r).length < r.gpus)
    (hkept : ∀ c ∈ w.freeFor r, c ∈ w'.pool.ownedFree ∨ c ∈ w'.pool.borrowable.1) :
    w'.shortFor r = w.shortFor r := by
  have hlength := (h.freeFor_perm hfree hkept).length_eq
  have hshift := h.shift
  have htotal := h.total
  rw [Walk.shortFor_eq, Walk.shortFor_eq, hlength]
  cases r.borrows with
  | false =>
    simp only [Bool.false_eq_true, if_false]
    omega
  | true =>
    simp only [if_true]
    omega

end InStep

/-- What cannot cover a gap cannot cover a wider one. -/
theorem enoughToStart_wider {candidates : List Preemptable} {key : Key} {gap wider : Nat}
    {borrowing : Bool} (hgap : gap ≠ 0) (hle : gap ≤ wider)
    (h : enoughToStart candidates key gap borrowing = []) :
    enoughToStart candidates key wider borrowing = [] := by
  have hpos : 1 ≤ gap := Nat.pos_of_ne_zero hgap
  rw [enoughToStart_eq_nil hpos] at h
  rw [enoughToStart_eq_nil (hpos.trans hle)]
  exact h.trans_le hle

/-! ## The second walk -/

/-- The pool of the second walk: the assigned cards gone, and nothing stopped yet. -/
def Pool.afterLaunches (pool : Pool) (requests : List Request) : Pool :=
  pool.afterStops requests [] pool.coming

/-- A job waits for three cards of which two are free and one is under a filler; another filler is
queued behind it, and a job that fits behind that. -/
def waiterOnThree : List Request :=
  [{ jobId := "h", gpus := 3, borrows := false, priority := 10 },
    { jobId := "f", gpus := 1, borrows := true, fills := true },
    { jobId := "z", gpus := 0, borrows := false, priority := 60 }]

/-- The cards: two owned ones and a shared one free. -/
def oneUnderFiller : Pool where
  ownedFree := ["a", "b"]
  ownedPresent := 3
  sharedVisible := 1
  sample := some fun _ => (["s"], 0)
  shared := {"s"}
  preemptable :=
    [{ jobId := "p", priority := 90, gpus := ["o"], started := 0, owned := 1, borrowed := 0 }]

end Gpuc.Host
