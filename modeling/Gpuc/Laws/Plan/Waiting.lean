import Mathlib.Algebra.GroupWithZero.Nat
import Gpuc.Laws.Plan.Walk

/-!
# What a waiting job has, and what is stopped for it

A request is offered the free cards nobody ahead holds, as many as it asks for (`Walk.freeFor_eq`), and
one that waits is short of what neither those nor the cards on their way back give it
(`Walk.shortFor_eq`). What a covered job is offered goes to nobody else in the pass
(`freeFor_notGiven`). The jobs stopped for a waiting one are behind it (`mem_stopsFor`) and free what
it is short of (`enoughToStart_frees`).
-/

set_option autoImplicit false

namespace Gpuc.Host

open Gpuc.Basis

namespace Walk

/-! ## All a request could be offered -/

/-- The free cards nobody ahead holds that a request may use, owned before shared. -/
def offered (w : Walk) (r : Request) : List Uuid :=
  w.unheld w.pool.ownedFree ++ if r.borrows then w.unheld w.pool.borrowable.1 else []

/-- **A request is offered as many of them as it asks for.** -/
theorem freeFor_eq (w : Walk) (r : Request) : w.freeFor r = (w.offered r).take r.gpus := by
  have hlength : (w.ownedFor r).length = min r.gpus (w.unheld w.pool.ownedFree).length :=
    List.length_take
  unfold freeFor offered
  cases hborrows : r.borrows with
  | false => simp [asks, hborrows, ownedFor]
  | true =>
    rw [List.take_append, if_pos rfl]
    split
    · next hasks =>
      have hshort : (w.ownedFor r).length < r.gpus := by
        simpa using (Bool.and_eq_true_iff.mp hasks).1
      rw [show (w.ownedFor r).length = (w.unheld w.pool.ownedFree).length by omega, ownedFor]
    · next hasks =>
      have hlong : r.gpus ≤ (w.ownedFor r).length := by
        simpa [asks, hborrows] using hasks
      rw [Nat.sub_eq_zero_of_le (by omega), List.take_zero, List.append_nil, ownedFor]

/-- A request that is short has been offered all of them. -/
theorem freeFor_of_short {w : Walk} {r : Request} (h : (w.freeFor r).length < r.gpus) :
    w.freeFor r = w.offered r := by
  rw [freeFor_eq] at h ⊢
  refine List.take_of_length_le ?_
  by_contra hlong
  rw [List.length_take] at h
  omega

/-- Nothing is held when a pass begins. -/
theorem unheld_start (pool : Pool) (cards : List Uuid) :
    (Walk.start pool).unheld cards = cards := by
  simp [unheld, start]

theorem nodup_offered {w : Walk} (hpool : w.pool.Distinct) (r : Request) : (w.offered r).Nodup := by
  unfold offered
  refine (hpool.owned.filter _).append ?_ ?_
  · split
    · exact hpool.shared.filter _
    · exact List.nodup_nil
  · intro c hc hs
    split at hs
    · exact hpool.apart (List.mem_of_mem_filter hc) (List.mem_of_mem_filter hs)
    · exact List.not_mem_nil hs

theorem mem_offered {w : Walk} {r : Request} {c : Uuid} :
    c ∈ w.offered r ↔ w.held c = none ∧
      (c ∈ w.pool.ownedFree ∨ (r.borrows = true ∧ c ∈ w.pool.borrowable.1)) := by
  unfold offered
  cases r.borrows <;> simp [mem_unheld] <;> tauto

/-! ## The cards on their way back -/

/-- The owned cards on their way back that nobody ahead holds. -/
def ownedComing (w : Walk) : List Uuid :=
  (w.unheld w.pool.coming).filter fun c => c ∉ w.pool.shared

/-- The shared cards on their way back that nobody ahead holds. -/
def sharedComing (w : Walk) : List Uuid :=
  (w.unheld w.pool.coming).filter fun c => c ∈ w.pool.shared

theorem comingFor_eq (w : Walk) (r : Request) :
    w.comingFor r
      = (w.ownedComing ++ if r.borrows then w.sharedComing else []).take
          (r.gpus - (w.freeFor r).length) := by
  simp only [comingFor, ownedComing, sharedComing, sortedBy_bool]
  cases r.borrows with
  | true => simp
  | false => simp [List.filter_filter]

section Waiting
variable {w : Walk} {r : Request} (hnodup : w.pool.coming.Nodup)
  (hapart : ∀ c ∈ w.freeFor r, c ∉ w.pool.coming)
include hapart

/-- What a waiting job leaves of the cards on their way back. -/
theorem unheld_waitFor :
    (w.waitFor r).2.unheld (w.waitFor r).2.pool.coming
      = (w.unheld w.pool.coming).filter fun c => c ∉ w.comingFor r := by
  have hcoming : (w.waitFor r).2.pool.coming = w.pool.coming := by
    rw [waitFor_pool, readFor_coming]
  rw [hcoming, unheld, unheld, List.filter_filter]
  refine List.filter_congr fun c hc => ?_
  have hfree : c ∉ w.freeFor r := fun h => hapart c h hc
  rw [waitFor_held]
  by_cases hmem : c ∈ w.comingFor r
  · simp [hmem]
  · simp [hmem, hfree]

include hnodup

/-- A waiting job takes the owned cards on their way back from the front. -/
theorem ownedComing_waitFor :
    (w.waitFor r).2.ownedComing = w.ownedComing.drop (r.gpus - (w.freeFor r).length) := by
  have howned : w.ownedComing.Nodup := (hnodup.filter _).filter _
  have hshared : (w.waitFor r).2.pool.shared = w.pool.shared := by
    rw [waitFor_pool, readFor_shared]
  rw [← filter_notMem_take howned, ownedComing, unheld_waitFor hapart, hshared, List.filter_comm]
  refine List.filter_congr fun c hc => ?_
  rw [← ownedComing] at hc
  have hnot : ∀ n, c ∉ (if r.borrows then w.sharedComing else []).take n := by
    intro n hmem
    have hmem := List.mem_of_mem_take hmem
    split at hmem
    · exact absurd (List.mem_filter.mp hmem).2 (by simpa using (List.mem_filter.mp hc).2)
    · exact List.not_mem_nil hmem
  simp [comingFor_eq, List.take_append, hnot]

/-- A waiting borrower takes the shared ones once the owned ones are gone. -/
theorem sharedComing_waitFor :
    (w.waitFor r).2.sharedComing
      = if r.borrows then
          w.sharedComing.drop (r.gpus - (w.freeFor r).length - w.ownedComing.length)
        else w.sharedComing := by
  have hdistinct : w.sharedComing.Nodup := (hnodup.filter _).filter _
  have hshared : (w.waitFor r).2.pool.shared = w.pool.shared := by
    rw [waitFor_pool, readFor_shared]
  have hrest : (w.waitFor r).2.sharedComing
      = w.sharedComing.filter fun c => c ∉ w.comingFor r := by
    rw [sharedComing, unheld_waitFor hapart, hshared, List.filter_comm, ← sharedComing]
  have hnot : ∀ c ∈ w.sharedComing, ∀ n, c ∉ w.ownedComing.take n := by
    intro c hc n hmem
    exact absurd (List.mem_filter.mp hc).2
      (by simpa using (List.mem_filter.mp (List.mem_of_mem_take hmem)).2)
  rw [hrest]
  cases hborrows : r.borrows with
  | true =>
    rw [if_pos rfl, ← filter_notMem_take hdistinct]
    refine List.filter_congr fun c hc => ?_
    simp [comingFor_eq, List.take_append, hnot c hc, hborrows]
  | false =>
    rw [if_neg (by simp), List.filter_eq_self]
    intro c hc
    simp [comingFor_eq, hnot c hc, hborrows]

/-- How many of each a waiting job leaves. -/
theorem length_waitFor :
    (w.waitFor r).2.ownedComing.length
        = w.ownedComing.length - (r.gpus - (w.freeFor r).length) ∧
      (w.waitFor r).2.sharedComing.length
        = w.sharedComing.length
          - if r.borrows then r.gpus - (w.freeFor r).length - w.ownedComing.length else 0 := by
  rw [ownedComing_waitFor hnodup hapart, sharedComing_waitFor hnodup hapart]
  cases r.borrows <;> simp

end Waiting

/-! ## What a request is short of -/

/-- **A request is short of what neither the free cards nor those on their way back give it.** -/
theorem shortFor_eq (w : Walk) (r : Request) :
    w.shortFor r = r.gpus - (w.freeFor r).length
      - (w.ownedComing.length + if r.borrows then w.sharedComing.length else 0) := by
  unfold shortFor
  rw [comingFor_eq, List.length_take, List.length_append]
  cases r.borrows <;> simp <;> omega

/-- With nothing on its way back, a request is short of what it is not offered. -/
theorem shortFor_of_noneComing {w : Walk} (h : w.pool.coming = []) (r : Request) :
    w.shortFor r = r.gpus - (w.freeFor r).length := by
  have hnone : w.comingFor r = [] := List.eq_nil_iff_forall_not_mem.mpr fun c hc => by
    have hcoming := (mem_comingFor hc).1
    rw [h] at hcoming
    exact List.not_mem_nil hcoming
  rw [shortFor, hnone]
  rfl

/-- A request that is short after the free cards has had the shared cards somebody else is on
counted, if it may borrow at all. -/
theorem oursFor_of_short {w : Walk} {r : Request} (h : (w.freeFor r).length < r.gpus) :
    w.oursFor r = w.pool.ownedPresent
      + if r.borrows then (w.pool.sharedVisible : Int) - w.pool.borrowable.2.theirs else 0 := by
  unfold oursFor
  cases hborrows : r.borrows with
  | false => simp
  | true =>
    have hasks := asks_of_short w r hborrows h
    have htheirs : (w.readFor r).pool.theirs = w.pool.borrowable.2.theirs := by
      rw [readFor, if_pos hasks]
    simp [htheirs]

/-- When every card held is held for a covered job, there is nothing to fill but what a request was
offered. -/
theorem fill_eq_none {w : Walk} {r : Request} (hpool : w.pool.Distinct)
    (hall : ∀ c job, w.held c = some job → job ∈ w.covered)
    (hfree : (w.freeFor r).length < r.gpus) : ((w.readFor r).fill r).1 = none := by
  cases hfill : ((w.readFor r).fill r).1 with
  | none => rfl
  | some got =>
    obtain ⟨cards, heldFor⟩ := got
    obtain ⟨hcards, hlength, -⟩ := fill_eq_some _ r hfill
    have hopen : (w.readFor r).openFor r ⊆ w.offered r := by
      intro c hc
      have hmem := (mem_openFor _ r).mp hc
      rw [readFor_ownedFree, readFor_borrowable] at hmem
      refine mem_offered.mpr ⟨?_, hmem.2⟩
      cases hheld : w.held c with
      | none => rfl
      | some job =>
        have hout := openToIt_iff.mp hmem.1 job (by rw [readFor_held]; exact hheld)
        rw [readFor_covered] at hout
        exact absurd (hall c job hheld) hout
    have hnodup := nodup_openFor _ r ((spent_readFor w r).distinct hpool)
    have hle : ((w.readFor r).openFor r).length ≤ (w.offered r).length :=
      (List.subperm_of_subset hnodup hopen).length_le
    rw [freeFor_of_short hfree] at hfree
    rw [hcards, List.length_take] at hlength
    omega

section Waiting
variable (w : Walk) (r : Request)

theorem waitFor_covered :
    (w.waitFor r).2.covered
      = if w.shortFor r = 0 ∨ (w.readFor r).stopsFor r (w.shortFor r) ≠ [] then
          insert r.jobId w.covered
        else w.covered := by
  simp only [waitFor, wait, hold, readFor_covered]

theorem waitFor_stuck :
    (w.waitFor r).2.stuck = (w.stuck || decide (w.shortFor r ≠ 0)) := by
  simp only [waitFor, wait, readFor_stuck]

end Waiting

end Walk

/-- The decisions that leave a job in the queue. -/
def Decision.waits : Decision → Bool
  | .holds .. | .steppedOver .. => true
  | .assigned .. | .fails .. => false

/-! ## Covered cards stay -/

theorem Decision.assigned_of_mem_gpus {d : Decision} {c : Uuid} (h : c ∈ d.gpus) :
    ∃ jobId cards heldFor, d = .assigned jobId cards heldFor := by
  cases d with
  | assigned jobId cards heldFor => exact ⟨jobId, cards, heldFor, rfl⟩
  | _ => exact absurd h List.not_mem_nil

/-- **A card held for a covered job is handed to nobody behind it.** -/
theorem planFrom_covered {w : Walk} (rs : List Request) {c : Uuid} {job : JobId}
    (hheld : w.held c = some job) (hcovered : job ∈ w.covered) :
    ∀ d ∈ (planFrom w rs).1, c ∉ d.gpus := by
  induction rs generalizing w with
  | nil => intro d hd; exact absurd hd List.not_mem_nil
  | cons r rs ih =>
    have hturned := Walk.turned w r
    rw [planFrom_cons]
    refine List.forall_mem_cons.mpr ⟨fun hc => ?_, ?_⟩
    · obtain ⟨jobId, cards, heldFor, hassigned⟩ := Decision.assigned_of_mem_gpus hc
      rw [hassigned] at hturned hc
      exact Walk.openToIt_iff.mp (hturned.open hc) job hheld hcovered
    · exact ih (hturned.held hheld) (hturned.covered.mpr (.inl hcovered))

/-- Once a job with a gap has been passed, that is remembered. -/
theorem Walk.Turned.stuck {w after : Walk} {r : Request} {d : Decision} (h : Turned w r d after)
    (hafter : after.stuck = false) : w.stuck = false := by
  cases h with
  | fails => exact hafter
  | fits => rwa [give_stuck, readFor_stuck] at hafter
  | passed => rwa [readFor_stuck] at hafter
  | fills => rwa [give_stuck, readFor_stuck] at hafter
  | waits =>
    rw [waitFor_stuck] at hafter
    exact (Bool.or_eq_false_iff.mp hafter).1

/-- The cards a covered job is offered are assigned to nobody in the pass. -/
theorem freeFor_notGiven {pool : Pool} (hpool : pool.Distinct) {before : List Request}
    {r : Request} (rest : List Request) (hcovers : r.jobId ∈ ((walkTo pool before).waitFor r).2.covered)
    (hturn : (walkTo pool before).turn r = (walkTo pool before).waitFor r) {c : Uuid}
    (hc : c ∈ (walkTo pool before).freeFor r) :
    ∀ d ∈ plan (before ++ r :: rest) pool, c ∉ d.gpus := by
  rw [plan_split, hturn]
  intro d hd
  rcases List.mem_append.mp hd with hbefore | hd
  · intro hgiven
    obtain ⟨howned, hshared⟩ := (plan_disjoint before hpool).2 d hbefore c hgiven
    rcases (Walk.mem_freeFor _ r hc).2 with h | ⟨-, h⟩
    · exact howned h
    · exact hshared h
  · rcases List.mem_cons.mp hd with rfl | hd
    · exact List.not_mem_nil
    · refine planFrom_covered rest ?_ hcovers d hd
      rw [Walk.waitFor_held, if_pos (List.mem_append_left _ hc)]

/-! ## What is stopped for a waiting job -/

/-- A decision to wait with stops to make is the first with a gap. -/
theorem turn_of_holds {w : Walk} {r : Request} {owned shared gap : Nat} {preempts : List JobId}
    (hd : (w.turn r).1 = .holds r.jobId owned shared gap preempts) :
    w.turn r = w.waitFor r ∧ w.failureFor r = none ∧ (w.freeFor r).length < r.gpus ∧
      (r.gpus : Int) ≤ w.oursFor r ∧ gap = w.shortFor r ∧
      preempts = (w.stopsFor r gap).map Preemptable.jobId := by
  have hturned := Walk.turned w r
  generalize hd' : (w.turn r).1 = d at hturned
  generalize hafter : (w.turn r).2 = after at hturned
  cases hturned with
  | waits hcap hfree hours =>
    have hholds := hd'.symm.trans hd
    simp only [Walk.waitFor, Walk.wait, Decision.holds.injEq] at hholds
    obtain ⟨-, -, -, hgap, hpreempts⟩ := hholds
    refine ⟨Prod.ext hd' hafter, hcap, hfree, hours, hgap.symm, ?_⟩
    rw [← hpreempts, hgap]
    simp only [Walk.stopsFor, Walk.readFor_stuck, Walk.readFor_preemptable]
  | _ => rw [hd] at hd'; cases hd'

theorem enoughLoop_subset (key : Key) (gap : Nat) (borrowing : Bool) (ps : List Preemptable)
    (freed : Nat) : ∀ p ∈ (enoughLoop key gap borrowing ps freed).1, p ∈ ps ∧ key < p.key := by
  induction ps generalizing freed with
  | nil => intro p hp; exact absurd hp List.not_mem_nil
  | cons p ps ih =>
    intro q hq
    unfold enoughLoop at hq
    split at hq
    · exact absurd hq List.not_mem_nil
    · split at hq
      · exact (ih freed q hq).imp_left (List.mem_cons_of_mem p)
      · next hskip =>
        rcases List.mem_cons.mp hq with rfl | hq
        · exact ⟨List.mem_cons_self, not_le.mp fun h => hskip (.inl h)⟩
        · exact (ih _ q hq).imp_left (List.mem_cons_of_mem p)

theorem enoughLoop_sublist (key : Key) (gap : Nat) (borrowing : Bool) (ps : List Preemptable)
    (freed : Nat) : (enoughLoop key gap borrowing ps freed).1.Sublist ps := by
  induction ps generalizing freed with
  | nil => exact .refl []
  | cons p ps ih =>
    unfold enoughLoop
    split
    · exact List.nil_sublist _
    · split
      · exact (ih freed).cons p
      · exact (ih _).cons_cons p

/-- A job that would hand over nothing is not stopped. -/
theorem enoughLoop_frees (key : Key) (gap : Nat) (borrowing : Bool) (ps : List Preemptable)
    (freed : Nat) : ∀ p ∈ (enoughLoop key gap borrowing ps freed).1, p.frees borrowing ≠ 0 := by
  induction ps generalizing freed with
  | nil => intro p hp; exact absurd hp List.not_mem_nil
  | cons p ps ih =>
    intro q hq
    unfold enoughLoop at hq
    split at hq
    · exact absurd hq List.not_mem_nil
    · split at hq
      · exact ih freed q hq
      · next hskip =>
        rcases List.mem_cons.mp hq with rfl | hq
        · exact fun h => hskip (.inr h)
        · exact ih _ q hq

/-- No running job is stopped twice. -/
theorem enoughToStart_nodup {candidates : List Preemptable} {key : Key} {gap : Nat}
    {borrowing : Bool} (h : (candidates.map Preemptable.jobId).Nodup) :
    ((enoughToStart candidates key gap borrowing).map Preemptable.jobId).Nodup := by
  simp only [enoughToStart]
  split
  · refine ((enoughLoop_sublist key gap borrowing _ 0).map _).nodup ?_
    exact ((sortedBy_perm _ candidates).map _).nodup_iff.mpr h
  · exact List.nodup_nil

/-- **Only running jobs behind the waiting one are stopped for it.** -/
theorem mem_enoughToStart {candidates : List Preemptable} {key : Key} {gap : Nat}
    {borrowing : Bool} {p : Preemptable} (h : p ∈ enoughToStart candidates key gap borrowing) :
    p ∈ candidates ∧ key < p.key := by
  simp only [enoughToStart] at h
  split at h
  · exact (enoughLoop_subset key gap borrowing _ 0 p h).imp_left mem_sortedBy.mp
  · exact absurd h List.not_mem_nil

theorem enoughLoop_total (key : Key) (gap : Nat) (borrowing : Bool) (ps : List Preemptable)
    (freed : Nat) :
    (enoughLoop key gap borrowing ps freed).2
      = freed + ((enoughLoop key gap borrowing ps freed).1.map fun p => p.frees borrowing).sum := by
  induction ps generalizing freed with
  | nil => rfl
  | cons p ps ih =>
    unfold enoughLoop
    split
    · rfl
    · split
      · exact ih freed
      · simp only [List.map_cons, List.sum_cons]
        rw [ih, Nat.add_assoc]

/-- **All of them or none**: jobs are stopped only when what they free makes up the gap. -/
theorem enoughToStart_frees {candidates : List Preemptable} {key : Key} {gap : Nat}
    {borrowing : Bool} (h : enoughToStart candidates key gap borrowing ≠ []) :
    gap ≤ ((enoughToStart candidates key gap borrowing).map fun p => p.frees borrowing).sum := by
  have htotal := enoughLoop_total key gap borrowing
    (sortedBy Preemptable.stopOrder candidates) 0
  simp only [enoughToStart] at h ⊢
  split
  · next henough => omega
  · next hfew => rw [if_neg hfew] at h; exact absurd rfl h

theorem mem_stopsFor {w : Walk} {r : Request} {gap : Nat} {p : Preemptable}
    (h : p ∈ w.stopsFor r gap) :
    w.stuck = false ∧ gap ≠ 0 ∧ p ∈ w.pool.preemptable ∧ r.key < p.key := by
  unfold Walk.stopsFor at h
  split at h
  · next hfirst =>
    exact ⟨hfirst.2, hfirst.1, mem_enoughToStart h⟩
  · exact absurd h List.not_mem_nil

theorem stopsFor_frees {w : Walk} {r : Request} {gap : Nat} {p : Preemptable}
    (h : p ∈ w.stopsFor r gap) : p.frees r.borrows ≠ 0 := by
  unfold Walk.stopsFor at h
  split at h
  · simp only [enoughToStart] at h
    split at h
    · exact enoughLoop_frees r.key gap r.borrows _ 0 p h
    · exact absurd h List.not_mem_nil
  · exact absurd h List.not_mem_nil

/-- No running job is stopped twice for a waiting one. -/
theorem stopsFor_nodup {w : Walk} (r : Request) (gap : Nat)
    (h : (w.pool.preemptable.map Preemptable.jobId).Nodup) :
    ((w.stopsFor r gap).map Preemptable.jobId).Nodup := by
  unfold Walk.stopsFor
  split
  · exact enoughToStart_nodup h
  · exact List.nodup_nil

end Gpuc.Host
