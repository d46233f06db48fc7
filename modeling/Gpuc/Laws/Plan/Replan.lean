import Mathlib.Algebra.GroupWithZero.Nat
import Gpuc.Laws.Plan.Waiting

/-!
# Planning again once the stops a pass ordered are on their way

A pass that stops jobs for the first one the queue is stuck on is followed by a pass over what it left
waiting, the stopped jobs queued again, with their cards on the way back (`requeued`, `afterStops`).
The two passes are walked in step (`InStep`): up to the job the stops are for, no job has a gap, so
every card held is held for a covered job, the free cards held are the same in both passes
(`InStep.freeFor_perm`), and what moves is which of the cards coming back the jobs ahead wait for.

The law (`replan_unstuck_iff`): the job the stops are for is not stuck in the second pass exactly when
the cards handed back that it may use make up its gap and, if it may not borrow, replace the shared
cards coming back that jobs ahead of it hold. The first half never fails when the running jobs are
counted as they are and share no card (`gap_le_handedBack`). The second can: the jobs ahead take owned
cards first, and let the shared ones go (`preemption_makes_no_room`).

What it does not establish: that the stops land. A job that ends some other way hands its cards back
too, and the next pass is planned from what is there then.
-/

set_option autoImplicit false

namespace Gpuc.Host

open Gpuc.Basis

/-! ## Two walks in step

The first walk is along the whole queue, the second along what it leaves waiting, with the cards the
first one assigned gone and more cards on their way back. Up to the first job with a gap they hold
the same free cards; what differs is which of the cards on their way back the jobs ahead wait for. -/

/-- **The second walk is in step with the first**, `handed` more cards coming of which `owned` are
owned, `before` shared ones coming at the start. Every owned card more is one shared card fewer that
the jobs ahead wait for (`shift`). -/
structure InStep (owned handed before : Nat) (w w' : Walk) : Prop where
  distinct : w.pool.Distinct
  distinct' : w'.pool.Distinct
  ownedFree : w'.pool.ownedFree ⊆ w.pool.ownedFree
  sharedFree : w'.pool.borrowable.1 ⊆ w.pool.borrowable.1
  ownedPresent : w'.pool.ownedPresent = w.pool.ownedPresent
  sharedVisible : w'.pool.sharedVisible = w.pool.sharedVisible
  ownedAbsent : w'.pool.ownedAbsent = w.pool.ownedAbsent
  sharedAbsent : w'.pool.sharedAbsent = w.pool.sharedAbsent
  shared : w'.pool.shared = w.pool.shared
  theirs : w'.pool.borrowable.2.theirs = w.pool.borrowable.2.theirs
  coming : w.pool.coming ⊆ w'.pool.coming
  nodup : w.pool.coming.Nodup
  nodup' : w'.pool.coming.Nodup
  apart : ∀ c ∈ w'.pool.coming, c ∉ w.pool.ownedFree ∧ c ∉ w.pool.borrowable.1
  held : ∀ c ∉ w'.pool.coming, w'.held c = w.held c
  covered : ∀ c job, w.held c = some job → job ∈ w.covered
  covered' : ∀ c job, w'.held c = some job → job ∈ w'.covered
  stuck : w.stuck = false
  stuck' : w'.stuck = false
  few : w.sharedComing.length ≤ before
  front : w.sharedComing.length = before ∨ w.ownedComing.length = 0
  shift : w'.ownedComing.length
    = w.ownedComing.length + (owned - (before - w.sharedComing.length))
  total : w'.ownedComing.length + w'.sharedComing.length
    = w.ownedComing.length + w.sharedComing.length + handed

namespace InStep

variable {owned handed before : Nat} {w w' : Walk}

/-- The first walk goes on without a job waiting: the second stands still. -/
theorem spend (h : InStep owned handed before w w') {after : Walk}
    (hheld : after.held = w.held) (hcovered : after.covered = w.covered)
    (hstuck : after.stuck = w.stuck) (hspent : w.pool.Spent after.pool)
    (howned : w'.pool.ownedFree ⊆ after.pool.ownedFree)
    (hshared : w'.pool.borrowable.1 ⊆ after.pool.borrowable.1) :
    InStep owned handed before after w' := by
  have hunheld : after.unheld after.pool.coming = w.unheld w.pool.coming := by
    simp only [Walk.unheld, hheld, hspent.coming]
  have hownedComing : after.ownedComing = w.ownedComing := by
    simp only [Walk.ownedComing, hunheld, hspent.sharedCards]
  have hsharedComing : after.sharedComing = w.sharedComing := by
    simp only [Walk.sharedComing, hunheld, hspent.sharedCards]
  exact
    { distinct := hspent.distinct h.distinct
      distinct' := h.distinct'
      ownedFree := howned
      sharedFree := hshared
      ownedPresent := h.ownedPresent.trans hspent.ownedPresent.symm
      sharedVisible := h.sharedVisible.trans hspent.sharedVisible.symm
      ownedAbsent := h.ownedAbsent.trans hspent.ownedAbsent.symm
      sharedAbsent := h.sharedAbsent.trans hspent.sharedAbsent.symm
      shared := h.shared.trans hspent.sharedCards.symm
      theirs := h.theirs.trans hspent.theirs.symm
      coming := hspent.coming ▸ h.coming
      nodup := hspent.coming ▸ h.nodup
      nodup' := h.nodup'
      apart := fun c hc => ⟨fun hf => (h.apart c hc).1 (hspent.owned.subset hf),
        fun hf => (h.apart c hc).2 (hspent.shared.subset hf)⟩
      held := fun c hc => by rw [hheld]; exact h.held c hc
      covered := by rw [hheld, hcovered]; exact h.covered
      covered' := h.covered'
      stuck := hstuck.trans h.stuck
      stuck' := h.stuck'
      few := hsharedComing ▸ h.few
      front := by rw [hsharedComing, hownedComing]; exact h.front
      shift := by rw [hsharedComing, hownedComing]; exact h.shift
      total := by rw [hsharedComing, hownedComing]; exact h.total }

/-- The second walk takes the reading: nothing it can hand out changes. -/
theorem read (h : InStep owned handed before w w') (r : Request) :
    InStep owned handed before w (w'.readFor r) := by
  have hspent := Walk.spent_readFor w' r
  have hunheld : (w'.readFor r).unheld (w'.readFor r).pool.coming = w'.unheld w'.pool.coming := by
    simp only [Walk.unheld, Walk.readFor_held, Walk.readFor_coming]
  have hownedComing : (w'.readFor r).ownedComing = w'.ownedComing := by
    simp only [Walk.ownedComing, hunheld, Walk.readFor_shared]
  have hsharedComing : (w'.readFor r).sharedComing = w'.sharedComing := by
    simp only [Walk.sharedComing, hunheld, Walk.readFor_shared]
  exact
    { h with
      distinct' := hspent.distinct h.distinct'
      ownedFree := by rw [Walk.readFor_ownedFree]; exact h.ownedFree
      sharedFree := by rw [Walk.readFor_borrowable]; exact h.sharedFree
      ownedPresent := hspent.ownedPresent.trans h.ownedPresent
      sharedVisible := hspent.sharedVisible.trans h.sharedVisible
      ownedAbsent := hspent.ownedAbsent.trans h.ownedAbsent
      sharedAbsent := hspent.sharedAbsent.trans h.sharedAbsent
      shared := hspent.sharedCards.trans h.shared
      theirs := hspent.theirs.trans h.theirs
      coming := hspent.coming.symm ▸ h.coming
      nodup' := hspent.coming.symm ▸ h.nodup'
      apart := hspent.coming.symm ▸ h.apart
      held := by rw [Walk.readFor_held, Walk.readFor_coming]; exact h.held
      covered' := by rw [Walk.readFor_held, Walk.readFor_covered]; exact h.covered'
      stuck' := (Walk.readFor_stuck w' r).trans h.stuck'
      shift := by rw [hownedComing]; exact h.shift
      total := by rw [hsharedComing, hownedComing]; exact h.total }

theorem failureFor (h : InStep owned handed before w w') (r : Request) :
    w'.failureFor r = w.failureFor r := by
  simp only [Walk.failureFor, h.ownedPresent, h.sharedVisible, h.ownedAbsent, h.sharedAbsent]

section Request
variable {r : Request}

theorem offered_subset (h : InStep owned handed before w w') : w'.offered r ⊆ w.offered r := by
  intro c hc
  obtain ⟨hnone, hmem⟩ := Walk.mem_offered.mp hc
  have hfree : c ∈ w.pool.ownedFree ∨ (r.borrows = true ∧ c ∈ w.pool.borrowable.1) :=
    hmem.imp (fun hf => h.ownedFree hf) (And.imp_right fun hf => h.sharedFree hf)
  have hcoming : c ∉ w'.pool.coming := fun hc' =>
    hfree.elim (h.apart c hc').1 (fun hf => (h.apart c hc').2 hf.2)
  exact Walk.mem_offered.mpr ⟨(h.held c hcoming).symm.trans hnone, hfree⟩

/-- A request short in the first walk is short in the second. -/
theorem freeFor_short (h : InStep owned handed before w w')
    (hfree : (w.freeFor r).length < r.gpus) : (w'.freeFor r).length < r.gpus := by
  have hle := (List.subperm_of_subset (Walk.nodup_offered h.distinct' r)
    h.offered_subset).length_le
  rw [Walk.freeFor_of_short hfree] at hfree
  rw [Walk.freeFor_eq, List.length_take]
  omega

theorem oursFor (h : InStep owned handed before w w') (hfree : (w.freeFor r).length < r.gpus) :
    w'.oursFor r = w.oursFor r := by
  rw [Walk.oursFor_of_short hfree, Walk.oursFor_of_short (h.freeFor_short hfree), h.ownedPresent,
    h.sharedVisible, h.theirs]

/-- **What a job waiting in both walks is offered is the same**, when none of it was assigned to
anybody later in the first. -/
theorem freeFor_perm (h : InStep owned handed before w w')
    (hfree : (w.freeFor r).length < r.gpus)
    (hkept : ∀ c ∈ w.freeFor r, c ∈ w'.pool.ownedFree ∨ c ∈ w'.pool.borrowable.1) :
    (w'.freeFor r).Perm (w.freeFor r) := by
  have hshort := h.freeFor_short hfree
  rw [Walk.freeFor_of_short hfree] at hkept ⊢
  rw [Walk.freeFor_of_short hshort]
  refine (List.perm_ext_iff_of_nodup (Walk.nodup_offered h.distinct' r)
    (Walk.nodup_offered h.distinct r)).mpr fun c => ⟨fun hc => h.offered_subset hc, fun hc => ?_⟩
  obtain ⟨hnone, hmem⟩ := Walk.mem_offered.mp hc
  have hcoming : c ∉ w'.pool.coming := fun hc' =>
    hmem.elim (h.apart c hc').1 (fun hf => (h.apart c hc').2 hf.2)
  refine Walk.mem_offered.mpr ⟨(h.held c hcoming).trans hnone, ?_⟩
  rcases hmem with howned | ⟨hborrows, hshared⟩
  · refine .inl ((hkept c hc).resolve_right fun hs => ?_)
    exact h.distinct.apart howned (h.sharedFree hs)
  · refine .inr ⟨hborrows, (hkept c hc).resolve_left fun ho => ?_⟩
    exact h.distinct.apart (h.ownedFree ho) hshared

/-- The cards a job waiting in both walks is short of, in each. -/
theorem short_iff (h : InStep owned handed before w w') (hfree : (w.freeFor r).length < r.gpus)
    (hkept : ∀ c ∈ w.freeFor r, c ∈ w'.pool.ownedFree ∨ c ∈ w'.pool.borrowable.1) :
    w'.shortFor r = 0 ↔ w.shortFor r ≤
      if r.borrows then handed else owned - (before - w.sharedComing.length) := by
  have hlength := (h.freeFor_perm hfree hkept).length_eq
  have hshift := h.shift
  have htotal := h.total
  rw [Walk.shortFor_eq, Walk.shortFor_eq, hlength]
  cases r.borrows <;> simp only [Bool.false_eq_true, if_true, if_false] <;> omega

/-- The cards held by a job that waits only for stops in flight are held for a covered job. -/
theorem held_covered {v : Walk} (hall : ∀ c job, v.held c = some job → job ∈ v.covered)
    (hgap : v.shortFor r = 0) (c : Uuid) (job : JobId) (hc : (v.waitFor r).2.held c = some job) :
    job ∈ (v.waitFor r).2.covered := by
  rw [Walk.waitFor_covered, if_pos (.inl hgap)]
  rw [Walk.waitFor_held] at hc
  split at hc
  · obtain rfl := Option.some.inj hc
    exact Finset.mem_insert_self _ _
  · exact Finset.mem_insert_of_mem (hall c job hc)

/-- What is held and is not coming back is the same in both walks after the job has waited. -/
theorem held_wait (h : InStep owned handed before w w') (hfree : (w.freeFor r).length < r.gpus)
    (hkept : ∀ c ∈ w.freeFor r, c ∈ w'.pool.ownedFree ∨ c ∈ w'.pool.borrowable.1) {c : Uuid}
    (hc : c ∉ w'.pool.coming) : (w'.waitFor r).2.held c = (w.waitFor r).2.held c := by
  have hout : c ∉ w.comingFor r := fun hin => hc (h.coming (Walk.mem_comingFor hin).1)
  have hout' : c ∉ w'.comingFor r := fun hin => hc (Walk.mem_comingFor hin).1
  have hmem := (h.freeFor_perm hfree hkept).mem_iff (a := c)
  simp only [Walk.waitFor_held, h.held c hc, List.mem_append, hout, hout', or_false, hmem]

/-- The counts of the cards coming back, once a job has taken `t` of them in both walks: owned cards
first, and shared ones only if it borrows. -/
private theorem counts_wait {A S A' S' A₁ S₁ A₁' S₁' t : Nat} {borrows : Bool}
    (hwant : t ≤ A + if borrows then S else 0) (hfew : S ≤ before)
    (hfront : S = before ∨ A = 0) (hshift : A' = A + (owned - (before - S)))
    (htotal : A' + S' = A + S + handed) (hA : A₁ = A - t)
    (hS : S₁ = S - if borrows then t - A else 0) (hA' : A₁' = A' - t)
    (hS' : S₁' = S' - if borrows then t - A' else 0) :
    S₁ ≤ before ∧ (S₁ = before ∨ A₁ = 0) ∧ A₁' = A₁ + (owned - (before - S₁)) ∧
      A₁' + S₁' = A₁ + S₁ + handed := by
  cases borrows with
  | false => simp only [Bool.false_eq_true, if_false] at hwant hS hS'; omega
  | true => simp only [if_true] at hwant hS hS'; omega

/-- **A job waiting only for stops in flight waits for no more than those the second time.** -/
theorem wait (h : InStep owned handed before w w') (hfree : (w.freeFor r).length < r.gpus)
    (hkept : ∀ c ∈ w.freeFor r, c ∈ w'.pool.ownedFree ∨ c ∈ w'.pool.borrowable.1)
    (hgap : w.shortFor r = 0) :
    w'.shortFor r = 0 ∧ InStep owned handed before (w.waitFor r).2 (w'.waitFor r).2 := by
  have hgap' : w'.shortFor r = 0 := (h.short_iff hfree hkept).mpr (by omega)
  have hlength := (h.freeFor_perm hfree hkept).length_eq
  have hapart : ∀ c ∈ w.freeFor r, c ∉ w'.pool.coming := fun c hc hc' =>
    (Walk.mem_freeFor w r hc).2.elim (h.apart c hc').1 (fun hf => (h.apart c hc').2 hf.2)
  obtain ⟨hown, hshare⟩ := Walk.length_waitFor (r := r) h.nodup
    fun c hc hin => hapart c hc (h.coming hin)
  obtain ⟨hown', hshare'⟩ := Walk.length_waitFor (r := r) h.nodup'
    fun c hc => hapart c ((h.freeFor_perm hfree hkept).mem_iff.mp hc)
  rw [hlength] at hown' hshare'
  have hwant : r.gpus - (w.freeFor r).length
      ≤ w.ownedComing.length + if r.borrows then w.sharedComing.length else 0 := by
    rw [Walk.shortFor_eq] at hgap
    omega
  obtain ⟨hfew, hfront, hshift, htotal⟩ :=
    counts_wait hwant h.few h.front h.shift h.total hown hshare hown' hshare'
  have hread : InStep owned handed before (w.readFor r) (w'.readFor r) := (h.read r).spend
    (Walk.readFor_held w r) (Walk.readFor_covered w r) (Walk.readFor_stuck w r)
    (Walk.spent_readFor w r)
    (by rw [Walk.readFor_ownedFree, Walk.readFor_ownedFree]; exact h.ownedFree)
    (by rw [Walk.readFor_borrowable, Walk.readFor_borrowable]; exact h.sharedFree)
  refine ⟨hgap', { hread with
    held := ?_
    covered := held_covered h.covered hgap
    covered' := held_covered h.covered' hgap'
    stuck := by rw [Walk.waitFor_stuck, h.stuck, hgap]; rfl
    stuck' := by rw [Walk.waitFor_stuck, h.stuck', hgap']; rfl
    few := hfew
    front := hfront
    shift := hshift
    total := htotal }⟩
  intro c hc
  rw [Walk.waitFor_pool, Walk.readFor_coming] at hc
  exact h.held_wait hfree hkept hc

end Request

end InStep

/-! ## The queue and the pool of the second pass -/

/-- The decisions that leave a job not stuck: it starts now, or once the stops in flight land. -/
def Decision.unstuck : Decision → Bool
  | .assigned .. => true
  | .holds _ _ _ gap _ => gap == 0
  | .steppedOver .. | .fails .. => false

/-- What a pass decides about one of its requests. -/
def decisionOn (requests : List Request) (pool : Pool) (r : Request) : Option Decision :=
  (requests.zip (plan requests pool)).lookup r

/-- The requests a pass leaves waiting. -/
def stillWaiting (requests : List Request) (pool : Pool) : List Request :=
  ((requests.zip (plan requests pool)).filter fun p => p.2.waits).map Prod.fst

/-- The queue of the next pass: what was left waiting, and the stopped jobs queued again. -/
def requeued (requests : List Request) (pool : Pool) (again : List Request) : List Request :=
  sortedBy Request.key (stillWaiting requests pool ++ again)

/-- The visible cards of the stopped jobs. -/
def handedBack (visible : Finset Uuid) (stopped : List Preemptable) : List Uuid :=
  ((stopped.flatMap Preemptable.gpus).filter fun c => c ∈ visible).dedup

/-- The pool of the next pass: the assigned cards gone, the stopped jobs no longer to be stopped,
`coming` on their way back, and the same reading of the shared cards. -/
def Pool.afterStops (pool : Pool) (requests : List Request) (stopped : List Preemptable)
    (coming : List Uuid) : Pool :=
  let given := (plan requests pool).flatMap Decision.gpus
  { pool with
    ownedFree := pool.ownedFree.filter fun c => c ∉ given
    sample := some fun _ =>
      (pool.borrowable.1.filter fun c => c ∉ given, pool.borrowable.2.theirs)
    sharedFree := none
    theirs := 0
    coming := coming
    preemptable := pool.preemptable.filter fun p => p ∉ stopped }

/-! ## The two passes in step -/

namespace InStep

variable {owned handed before : Nat} {w w' : Walk} {r : Request}

/-- **One request of the first pass**, and the second walk if the request is left waiting. -/
theorem turn (h : InStep owned handed before w w') (hstuck : (w.turn r).2.stuck = false)
    (hgone : ∀ c ∈ (w.turn r).1.gpus, c ∉ w'.pool.ownedFree ∧ c ∉ w'.pool.borrowable.1)
    (hkept : w.turn r = w.waitFor r → w.shortFor r = 0 →
      ∀ c ∈ w.freeFor r, c ∈ w'.pool.ownedFree ∨ c ∈ w'.pool.borrowable.1) :
    let next := if (w.turn r).1.waits then (w'.turn r).2 else w'
    InStep owned handed before (w.turn r).2 next ∧
      next.pool.ownedFree = w'.pool.ownedFree ∧ next.pool.borrowable.1 = w'.pool.borrowable.1 := by
  have hturned := Walk.turned w r
  generalize hd : (w.turn r).1 = d at hturned hgone ⊢
  generalize hafter : (w.turn r).2 = after at hturned hstuck ⊢
  have hspent : w.pool.Spent after.pool := hturned.spent
  have howned : w'.pool.ownedFree ⊆ after.pool.ownedFree := fun c hc =>
    hturned.ownedFree.mpr ⟨h.ownedFree hc, fun hg => (hgone c hg).1 hc⟩
  have hshared : w'.pool.borrowable.1 ⊆ after.pool.borrowable.1 := fun c hc =>
    hturned.sharedFree (h.sharedFree hc) fun hg => (hgone c hg).2 hc
  cases hturned with
  | fails => exact ⟨h, rfl, rfl⟩
  | fits =>
    exact ⟨h.spend (Walk.readFor_held w r) (Walk.readFor_covered w r) (Walk.readFor_stuck w r)
      hspent howned hshared, rfl, rfl⟩
  | fills =>
    exact ⟨h.spend (Walk.readFor_held w r) (Walk.readFor_covered w r) (Walk.readFor_stuck w r)
      hspent howned hshared, rfl, rfl⟩
  | passed hcap hfree hours =>
    have hturn := Walk.turn_passed ((h.failureFor r).trans hcap) (h.freeFor_short hfree)
      (by rw [h.oursFor hfree]; exact hours)
    simp only [Decision.waits, if_true, hturn]
    exact ⟨(h.spend (Walk.readFor_held w r) (Walk.readFor_covered w r) (Walk.readFor_stuck w r)
      hspent howned hshared).read r, Walk.readFor_ownedFree w' r, Walk.readFor_borrowable w' r⟩
  | waits hcap hfree hours =>
    have hgap : w.shortFor r = 0 := by
      rw [Walk.waitFor_stuck] at hstuck
      simpa using (Bool.or_eq_false_iff.mp hstuck).2
    obtain ⟨hgap', hstep⟩ := h.wait hfree (hkept (Prod.ext hd hafter) hgap) hgap
    have hturn : w'.turn r = w'.waitFor r :=
      Walk.turn_waits ((h.failureFor r).trans hcap) (h.freeFor_short hfree)
        (by rw [h.oursFor hfree]; exact hours) fun hne => absurd hgap' hne
    have hwaits : (w.waitFor r).1.waits = true := rfl
    simp only [hwaits, if_true, hturn, Walk.waitFor_pool, Walk.readFor_ownedFree,
      Walk.readFor_borrowable]
    exact ⟨hstep, trivial, trivial⟩

/-- **Whether a job waiting in the first walk is stuck in the second.** -/
theorem unstuck_iff (h : InStep owned handed before w w') (hcap : w.failureFor r = none)
    (hfree : (w.freeFor r).length < r.gpus) (hours : (r.gpus : Int) ≤ w.oursFor r)
    (hkept : ∀ c ∈ w.freeFor r, c ∈ w'.pool.ownedFree ∨ c ∈ w'.pool.borrowable.1) :
    (w'.turn r).1.unstuck = true ↔ w.shortFor r ≤
      if r.borrows then handed else owned - (before - w.sharedComing.length) := by
  have hshort := h.freeFor_short hfree
  have hturn : w'.turn r = w'.waitFor r :=
    Walk.turn_waits ((h.failureFor r).trans hcap) hshort (by rw [h.oursFor hfree]; exact hours)
      fun _ => Walk.fill_eq_none h.distinct' h.covered' hshort
  rw [hturn, ← h.short_iff hfree hkept]
  exact beq_iff_eq

end InStep

theorem stillWaiting_snoc (pool : Pool) (before : List Request) (r : Request) :
    stillWaiting (before ++ [r]) pool
      = stillWaiting before pool
        ++ if ((walkTo pool before).turn r).1.waits then [r] else [] := by
  have hlength : before.length = (plan before pool).length := by simp [plan]
  rw [stillWaiting, plan_snoc, List.zip_append hlength, List.filter_append, List.map_append]
  congr 1
  cases hwaits : ((walkTo pool before).turn r).1.waits <;> simp [hwaits]

theorem walkTo_stuck {pool : Pool} {before rest : List Request}
    (h : (walkTo pool (before ++ rest)).stuck = false) : (walkTo pool before).stuck = false := by
  induction rest using List.reverseRecOn with
  | nil => simpa using h
  | append_singleton rest r ih =>
    rw [← List.append_assoc, walkTo_snoc] at h
    exact ih ((Walk.turned _ r).stuck h)

section Passes
variable {requests : List Request} {pool pool' : Pool}
  (howned : ∀ c, c ∈ pool'.ownedFree
    ↔ c ∈ pool.ownedFree ∧ ∀ d ∈ plan requests pool, c ∉ d.gpus)
  (hshared : ∀ c, c ∈ pool'.borrowable.1
    ↔ c ∈ pool.borrowable.1 ∧ ∀ d ∈ plan requests pool, c ∉ d.gpus)
include howned hshared

/-- The cards a covered job is offered are free in the next pass. -/
theorem freeFor_kept (hpool : pool.Distinct) {before rest : List Request} {r : Request}
    (hsplit : requests = before ++ r :: rest)
    (hcovers : r.jobId ∈ ((walkTo pool before).waitFor r).2.covered)
    (hturn : (walkTo pool before).turn r = (walkTo pool before).waitFor r) :
    ∀ c ∈ (walkTo pool before).freeFor r, c ∈ pool'.ownedFree ∨ c ∈ pool'.borrowable.1 := by
  intro c hc
  have hgiven := hsplit ▸ freeFor_notGiven hpool rest hcovers hturn hc
  have hspent := walkTo_spent pool before
  exact (Walk.mem_freeFor _ r hc).2.imp
    (fun hf => (howned c).mpr ⟨hspent.owned.subset hf, hgiven⟩)
    (fun hf => (hshared c).mpr ⟨hspent.shared.subset hf.2, hgiven⟩)

/-- **The second pass is in step with the first** along every stretch of the queue with no gap in
it. -/
theorem inStep_walkTo {handedOwned handed shared : Nat}
    (hstart : InStep handedOwned handed shared (Walk.start pool) (Walk.start pool'))
    {before rest : List Request} (hsplit : requests = before ++ rest)
    (hstuck : (walkTo pool before).stuck = false) :
    let next := walkTo pool' (stillWaiting before pool)
    InStep handedOwned handed shared (walkTo pool before) next ∧
      next.pool.ownedFree = pool'.ownedFree ∧ next.pool.borrowable.1 = pool'.borrowable.1 := by
  induction before using List.reverseRecOn generalizing rest with
  | nil => exact ⟨hstart, rfl, rfl⟩
  | append_singleton before r ih =>
    have hsplit' : requests = before ++ r :: rest := by rw [hsplit, List.append_assoc]; rfl
    rw [walkTo_snoc] at hstuck ⊢
    obtain ⟨hstep, hownedEq, hsharedEq⟩ := ih hsplit' ((Walk.turned _ r).stuck hstuck)
    have hmem : ((walkTo pool before).turn r).1 ∈ plan requests pool := by
      rw [hsplit', plan_split]
      exact List.mem_append_right _ List.mem_cons_self
    have hgone : ∀ c ∈ ((walkTo pool before).turn r).1.gpus,
        c ∉ (walkTo pool' (stillWaiting before pool)).pool.ownedFree ∧
          c ∉ (walkTo pool' (stillWaiting before pool)).pool.borrowable.1 := fun c hc =>
      ⟨fun hf => ((howned c).mp (hownedEq ▸ hf)).2 _ hmem hc,
        fun hf => ((hshared c).mp (hsharedEq ▸ hf)).2 _ hmem hc⟩
    have hturn := hstep.turn (r := r) hstuck hgone fun hwait hgap => by
      have hcovers : r.jobId ∈ ((walkTo pool before).waitFor r).2.covered := by
        rw [Walk.waitFor_covered, if_pos (.inl hgap)]
        exact Finset.mem_insert_self _ _
      rw [hownedEq, hsharedEq]
      exact freeFor_kept howned hshared hstart.distinct hsplit' hcovers hwait
    rw [stillWaiting_snoc]
    split
    · next hwaits =>
      rw [walkTo_snoc]
      simp only [hwaits, if_true] at hturn
      exact ⟨hturn.1, hturn.2.1.trans hownedEq, hturn.2.2.trans hsharedEq⟩
    · next hwaits =>
      rw [List.append_nil]
      simp only [hwaits, Bool.false_eq_true, if_false] at hturn
      exact ⟨hturn.1, hownedEq, hsharedEq⟩

end Passes

/-! ## The start of the second pass -/

section Start
variable {pool : Pool} {requests : List Request} {stopped : List Preemptable}
  {coming : List Uuid}

theorem afterStops_borrowable :
    (pool.afterStops requests stopped coming).borrowable.1
        = pool.borrowable.1.filter (fun c => c ∉ (plan requests pool).flatMap Decision.gpus) ∧
      (pool.afterStops requests stopped coming).borrowable.2.theirs
        = pool.borrowable.2.theirs :=
  ⟨rfl, rfl⟩

theorem mem_afterStops_owned (c : Uuid) :
    c ∈ (pool.afterStops requests stopped coming).ownedFree
      ↔ c ∈ pool.ownedFree ∧ ∀ d ∈ plan requests pool, c ∉ d.gpus := by
  simp [Pool.afterStops]

theorem mem_afterStops_shared (c : Uuid) :
    c ∈ (pool.afterStops requests stopped coming).borrowable.1
      ↔ c ∈ pool.borrowable.1 ∧ ∀ d ∈ plan requests pool, c ∉ d.gpus := by
  rw [afterStops_borrowable.1]
  simp

/-- **The second pass begins in step with the first**, the cards handed back coming besides. -/
theorem inStep_start {handed : List Uuid}
    (hcards : (pool.ownedFree ++ pool.borrowable.1 ++ pool.coming).Nodup)
    (hhanded : handed.Nodup)
    (houtside : ∀ c ∈ handed, c ∉ pool.ownedFree ++ pool.borrowable.1 ++ pool.coming)
    (hcoming : coming.Perm (pool.coming ++ handed)) :
    InStep (handed.filter fun c => c ∉ pool.shared).length handed.length
      (Walk.start pool).sharedComing.length (Walk.start pool)
      (Walk.start (pool.afterStops requests stopped coming)) := by
  obtain ⟨hfree, hcomingNodup, hapart⟩ := List.nodup_append.mp hcards
  obtain ⟨howned, hshared, hdisjoint⟩ := List.nodup_append.mp hfree
  have hpool : pool.Distinct := ⟨howned, hshared, fun c ho hs => hdisjoint c ho c hs rfl⟩
  have hperm : ∀ p : Uuid → Bool,
      (coming.filter p).length = (pool.coming.filter p).length + (handed.filter p).length := by
    intro p
    rw [(hcoming.filter p).length_eq, List.filter_append, List.length_append]
  have hall : ∀ cards : List Uuid, (cards.filter fun c => c ∉ pool.shared).length
      + (cards.filter fun c => c ∈ pool.shared).length = cards.length := by
    intro cards
    rw [List.length_eq_length_filter_add (l := cards) (fun c => c ∉ pool.shared)]
    simp
  have hownedComing : ∀ q : Pool, (Walk.start q).ownedComing
      = q.coming.filter fun c => c ∉ q.shared := fun q => by
    rw [Walk.ownedComing, show (Walk.start q).pool = q from rfl, Walk.unheld_start]
  have hsharedComing : ∀ q : Pool, (Walk.start q).sharedComing
      = q.coming.filter fun c => c ∈ q.shared := fun q => by
    rw [Walk.sharedComing, show (Walk.start q).pool = q from rfl, Walk.unheld_start]
  have hsubset : pool.coming ⊆ coming := fun c hc =>
    hcoming.mem_iff.mpr (List.mem_append_left _ hc)
  have hout : ∀ c ∈ coming, c ∉ pool.ownedFree ∧ c ∉ pool.borrowable.1 := by
    intro c hc
    have hnot : c ∉ pool.ownedFree ++ pool.borrowable.1 := by
      rcases List.mem_append.mp (hcoming.mem_iff.mp hc) with hin | hin
      · exact fun hf => hapart c hf c hin rfl
      · exact fun hf => houtside c hin (List.mem_append_left _ hf)
    exact ⟨fun h => hnot (List.mem_append_left _ h), fun h => hnot (List.mem_append_right _ h)⟩
  exact
    { distinct := hpool
      distinct' := ⟨howned.filter _, hshared.filter _, fun c ho hs =>
        hpool.apart (List.mem_of_mem_filter ho) (List.mem_of_mem_filter hs)⟩
      ownedFree := fun c hc => List.mem_of_mem_filter hc
      sharedFree := fun c hc => List.mem_of_mem_filter hc
      ownedPresent := rfl
      sharedVisible := rfl
      ownedAbsent := rfl
      sharedAbsent := rfl
      shared := rfl
      theirs := rfl
      coming := hsubset
      nodup := hcomingNodup
      nodup' := hcoming.nodup_iff.mpr (hcomingNodup.append hhanded fun c hc hh =>
        houtside c hh (List.mem_append_right _ hc))
      apart := hout
      held := fun _ _ => rfl
      covered := fun _ _ h => by cases h
      covered' := fun _ _ h => by cases h
      stuck := rfl
      stuck' := rfl
      few := le_refl _
      front := .inl rfl
      shift := by
        rw [hownedComing, hownedComing, Nat.sub_self, Nat.sub_zero]
        exact hperm _
      total := by
        rw [hownedComing, hownedComing, hsharedComing, hsharedComing]
        have hlength := hcoming.length_eq
        rw [List.length_append] at hlength
        rw [hall pool.coming, ← hlength]
        exact hall coming }

end Start

/-! ## The job the stops are for -/

/-- What a pass decides about a request, by where it stands in the queue. -/
theorem decisionOn_split {pool : Pool} {before rest : List Request} {r : Request}
    (h : r ∉ before) :
    decisionOn (before ++ r :: rest) pool r = some ((walkTo pool before).turn r).1 := by
  have hlength : before.length = (plan before pool).length := by simp [plan]
  have hfront : ∀ ds : List Decision, (before.zip ds).lookup r = none := by
    intro ds
    refine List.lookup_eq_none_iff.mpr fun p hp => ?_
    have hmem := (List.of_mem_zip (a := p.1) (b := p.2) hp).1
    simpa using fun heq : r = p.1 => h (heq ▸ hmem)
  rw [decisionOn, plan_split, List.zip_append hlength, List.lookup_append, hfront]
  simp

theorem map_filter_zip_sublist (rs : List Request) (ds : List Decision) :
    (((rs.zip ds).filter fun p => p.2.waits).map Prod.fst).Sublist rs := by
  refine (List.filter_sublist.map Prod.fst).trans ?_
  induction rs generalizing ds with
  | nil => exact .refl []
  | cons r rs ih =>
    cases ds with
    | nil => exact List.nil_sublist _
    | cons d ds => exact (ih ds).cons_cons r

theorem stillWaiting_split {pool : Pool} {before : List Request} {r : Request}
    (rest : List Request)
    (hwaits : ((walkTo pool before).turn r).1.waits = true) :
    ∃ behind, behind.Sublist rest ∧
      stillWaiting (before ++ r :: rest) pool = stillWaiting before pool ++ r :: behind := by
  have hlength : before.length = (plan before pool).length := by simp [plan]
  refine ⟨_, map_filter_zip_sublist rest (planFrom ((walkTo pool before).turn r).2 rest).1, ?_⟩
  rw [stillWaiting, plan_split, List.zip_append hlength, List.filter_append, List.map_append,
    List.zip_cons_cons, List.filter_cons_of_pos (by exact hwaits), List.map_cons]
  rfl

/-- **The job stands behind the same jobs in the next queue**: the stopped jobs are queued again
behind it. -/
theorem requeued_split {pool : Pool} {before rest again : List Request} {r : Request}
    (hsorted : (before ++ r :: rest).Pairwise (fun a b => a.key < b.key))
    (hwaits : ((walkTo pool before).turn r).1.waits = true)
    (hbehind : ∀ a ∈ again, r.key < a.key) :
    r ∉ stillWaiting before pool ∧ ∃ behind, requeued (before ++ r :: rest) pool again
      = stillWaiting before pool ++ r :: behind := by
  obtain ⟨behind, hsub, hsplit⟩ := stillWaiting_split rest hwaits
  have hfront : (stillWaiting before pool).Sublist before := map_filter_zip_sublist _ _
  obtain ⟨hbefore, hrest, hcross⟩ := List.pairwise_append.mp hsorted
  have hr : ∀ b ∈ rest, r.key < b.key := fun b hb => List.rel_of_pairwise_cons hrest hb
  refine ⟨fun hin => lt_irrefl _ (hcross r (hfront.subset hin) r List.mem_cons_self),
    sortedBy Request.key (behind ++ again), ?_⟩
  have hsortedFront : (stillWaiting before pool ++ [r]).Pairwise (fun a b => a.key ≤ b.key) := by
    refine List.pairwise_append.mpr ⟨(hbefore.sublist hfront).imp le_of_lt,
      List.pairwise_singleton _ _, fun a ha b hb => ?_⟩
    rw [List.mem_singleton.mp hb]
    exact le_of_lt (hcross a (hfront.subset ha) r List.mem_cons_self)
  have hlast : ∀ y ∈ behind ++ again, r.key < y.key := by
    intro y hy
    rcases List.mem_append.mp hy with hy | hy
    · exact hr y (hsub.subset hy)
    · exact hbehind y hy
  rw [requeued, hsplit]
  calc sortedBy Request.key (stillWaiting before pool ++ r :: behind ++ again)
      = sortedBy Request.key (stillWaiting before pool ++ [r] ++ (behind ++ again)) := by simp
    _ = stillWaiting before pool ++ [r] ++ sortedBy Request.key (behind ++ again) := by
        refine sortedBy_append hsortedFront fun x hx y hy => ?_
        rcases List.mem_append.mp hx with hx | hx
        · exact le_of_lt ((hcross x (hfront.subset hx) r List.mem_cons_self).trans (hlast y hy))
        · rw [List.mem_singleton.mp hx]
          exact le_of_lt (hlast y hy)
    _ = stillWaiting before pool ++ r :: sortedBy Request.key (behind ++ again) := by simp

/-! ## What stopping them is worth -/

/-- The counts of a running job are those of the visible cards it holds. -/
def Preemptable.Counted (p : Preemptable) (visible shared : Finset Uuid) : Prop :=
  p.owned = (p.gpus.countP fun c => c ∈ visible ∧ c ∉ shared) ∧
    p.borrowed = p.gpus.countP fun c => c ∈ visible ∧ c ∈ shared

instance (p : Preemptable) (visible shared : Finset Uuid) : Decidable (p.Counted visible shared) :=
  inferInstanceAs (Decidable (_ ∧ _))

/-- What a counted job frees for a waiting one is what it holds that the waiting one may use. -/
theorem Preemptable.Counted.frees {p : Preemptable} {visible shared : Finset Uuid}
    (h : p.Counted visible shared) (borrowing : Bool) :
    p.frees borrowing
      = p.gpus.countP fun c => c ∈ visible ∧ (borrowing = true ∨ c ∉ shared) := by
  unfold Preemptable.frees
  rw [h.1, h.2]
  cases borrowing with
  | false => simp
  | true =>
    simp only [if_true, true_or, and_true]
    rw [List.countP_eq_countP_filter_add _ (fun c => decide (c ∈ visible)) fun c => c ∉ shared,
      List.countP_filter, List.countP_filter]
    simp

/-- Counted jobs that share no card hand back what they free. -/
theorem length_handedBack {stopped : List Preemptable} {visible shared : Finset Uuid}
    (hnodup : (stopped.flatMap Preemptable.gpus).Nodup)
    (hcounted : ∀ p ∈ stopped, p.Counted visible shared) (borrowing : Bool) :
    ((handedBack visible stopped).filter fun c => borrowing || c ∉ shared).length
      = (stopped.map fun p => p.frees borrowing).sum := by
  have hfrees : (stopped.map fun p => p.frees borrowing)
      = stopped.map fun p =>
        p.gpus.countP fun c => c ∈ visible ∧ (borrowing = true ∨ c ∉ shared) :=
    List.map_congr_left fun p hp => (hcounted p hp).frees borrowing
  rw [handedBack, (hnodup.filter _).dedup, hfrees, List.filter_filter,
    ← List.countP_eq_length_filter, List.countP_flatMap]
  refine congrArg List.sum (List.map_congr_left fun p _ => List.countP_congr fun c _ => ?_)
  simp [and_comm]

/-- **The cards handed back make up the gap**, whatever the jobs ahead do with them: what can fall
short is only what those jobs let go for them. -/
theorem gap_le_handedBack {w : Walk} {r : Request} {gap : Nat} {visible shared : Finset Uuid}
    (hstops : w.stopsFor r gap ≠ [])
    (hnodup : ((w.stopsFor r gap).flatMap Preemptable.gpus).Nodup)
    (hcounted : ∀ p ∈ w.stopsFor r gap, p.Counted visible shared) :
    gap ≤ ((handedBack visible (w.stopsFor r gap)).filter
      fun c => r.borrows || c ∉ shared).length := by
  rw [length_handedBack hnodup hcounted]
  unfold Walk.stopsFor at hstops ⊢
  split at hstops
  · next hfirst =>
    rw [if_pos hfirst]
    exact enoughToStart_frees hstops
  · exact absurd rfl hstops

/-- The shared cards on their way back that jobs ahead of a place in the queue hold. -/
def sharedAhead (pool : Pool) (before : List Request) : Nat :=
  (pool.coming.filter fun c =>
    c ∈ pool.shared ∧ ((walkTo pool before).held c).isSome).length

theorem sharedAhead_eq (pool : Pool) (before : List Request) :
    sharedAhead pool before
      = (Walk.start pool).sharedComing.length - (walkTo pool before).sharedComing.length := by
  have hspent := walkTo_spent pool before
  have hstart : (Walk.start pool).sharedComing = pool.coming.filter fun c => c ∈ pool.shared := by
    rw [Walk.sharedComing, show (Walk.start pool).pool = pool from rfl, Walk.unheld_start]
  have hcount := List.length_eq_length_filter_add
    (l := pool.coming.filter fun c => c ∈ pool.shared)
    fun c => ((walkTo pool before).held c).isSome
  rw [hstart, Walk.sharedComing, Walk.unheld, hspent.coming, hspent.sharedCards, sharedAhead]
  simp only [List.filter_filter, Bool.decide_and, Bool.decide_eq_true, Option.not_isSome]
    at hcount ⊢
  rw [hcount]
  simp only [Bool.and_comm, Nat.add_sub_cancel]

/-- **What a preemption is worth to the job it is for.** The job is not stuck in the next pass exactly
when the cards it can use among those handed back make up its gap, and, for a job that may not borrow,
also replace the shared cards on their way back that jobs ahead of it hold: those jobs take owned cards
first, so each of them lets one of its shared cards go for one of the owned cards handed back. -/
theorem replan_unstuck_iff {requests before rest again : List Request} {pool : Pool}
    {w : Request} {owned shared gap : Nat} {preempts : List JobId} {visible : Finset Uuid}
    {coming : List Uuid}
    (hsorted : requests.Pairwise (fun a b => a.key < b.key))
    (hcards : (pool.ownedFree ++ pool.borrowable.1 ++ pool.coming).Nodup)
    (houtside : ∀ p ∈ pool.preemptable, ∀ c ∈ p.gpus,
      c ∉ pool.ownedFree ++ pool.borrowable.1 ++ pool.coming)
    (hsplit : requests = before ++ w :: rest)
    (hplan : decisionOn requests pool w = some (.holds w.jobId owned shared gap preempts))
    (hpreempts : preempts ≠ [])
    (hagain : again.map Request.key
      = ((walkTo pool before).stopsFor w gap).map Preemptable.key)
    (hcoming : coming.Perm
      (pool.coming ++ handedBack visible ((walkTo pool before).stopsFor w gap))) :
    (decisionOn (requeued requests pool again)
        (pool.afterStops requests ((walkTo pool before).stopsFor w gap) coming) w).any
        Decision.unstuck = true
      ↔ gap + (if w.borrows then 0 else sharedAhead pool before)
        ≤ ((handedBack visible ((walkTo pool before).stopsFor w gap)).filter
            fun c => w.borrows || c ∉ pool.shared).length := by
  subst hsplit
  have hfront : w ∉ before := fun hin =>
    lt_irrefl _ ((List.pairwise_append.mp hsorted).2.2 w hin w List.mem_cons_self)
  rw [decisionOn_split hfront] at hplan
  obtain ⟨hturn, hcap, hfree, hours, hgap, hnames⟩ := turn_of_holds (Option.some.inj hplan)
  -- the job is the first with a gap, and the jobs stopped for it are behind it
  obtain ⟨p, hp⟩ : ∃ p, p ∈ (walkTo pool before).stopsFor w gap := by
    refine List.exists_mem_of_ne_nil _ fun hnil => hpreempts ?_
    rw [hnames, hnil, List.map_nil]
  obtain ⟨hstuck, hpos, -, -⟩ := mem_stopsFor hp
  have hbehind : ∀ a ∈ again, w.key < a.key := by
    intro a ha
    have hkey : a.key ∈ ((walkTo pool before).stopsFor w gap).map Preemptable.key :=
      hagain ▸ List.mem_map_of_mem ha
    obtain ⟨q, hq, hqa⟩ := List.mem_map.mp hkey
    exact hqa ▸ (mem_stopsFor hq).2.2.2
  have hwaits : ((walkTo pool before).turn w).1.waits = true := by rw [hturn]; rfl
  obtain ⟨hout, behind, hrequeued⟩ := requeued_split hsorted hwaits hbehind
  rw [hrequeued, decisionOn_split hout]
  -- the two passes are in step when they come to it
  generalize hstopped : (walkTo pool before).stopsFor w gap = stopped at *
  have hhanded : ∀ c ∈ handedBack visible stopped,
      c ∉ pool.ownedFree ++ pool.borrowable.1 ++ pool.coming := by
    intro c hc
    have hc' := (List.mem_filter.mp (List.mem_dedup.mp hc)).1
    obtain ⟨q, hq, hcq⟩ := List.mem_flatMap.mp hc'
    have hmem := (mem_stopsFor (hstopped ▸ hq)).2.2.1
    rw [(walkTo_spent pool before).preemptable] at hmem
    exact houtside q hmem c hcq
  have hnodup : (handedBack visible stopped).Nodup := List.nodup_dedup _
  have hstart : InStep _ _ _ (Walk.start pool)
      (Walk.start (pool.afterStops (before ++ w :: rest) stopped coming)) :=
    inStep_start hcards hnodup hhanded hcoming
  obtain ⟨hstep, hownedEq, hsharedEq⟩ :=
    inStep_walkTo mem_afterStops_owned mem_afterStops_shared hstart rfl hstuck
  have hcovers : w.jobId ∈ ((walkTo pool before).waitFor w).2.covered := by
    rw [Walk.waitFor_covered, if_pos]
    · exact Finset.mem_insert_self _ _
    · refine .inr fun hnil => ?_
      rw [← hgap, Walk.stopsFor, Walk.readFor_stuck, Walk.readFor_preemptable] at hnil
      rw [← hstopped, Walk.stopsFor, hnil] at hp
      exact absurd hp List.not_mem_nil
  have hkept : ∀ c ∈ (walkTo pool before).freeFor w,
      c ∈ (pool.afterStops (before ++ w :: rest) stopped coming).ownedFree ∨
        c ∈ (pool.afterStops (before ++ w :: rest) stopped coming).borrowable.1 :=
    freeFor_kept mem_afterStops_owned mem_afterStops_shared hstart.distinct rfl hcovers hturn
  have hunstuck := hstep.unstuck_iff hcap hfree hours (by rwa [hownedEq, hsharedEq])
  rw [Option.any_some, hunstuck, ← hgap, ← sharedAhead_eq]
  cases hborrows : w.borrows with
  | true => simp
  | false =>
    simp only [Bool.false_eq_true, if_false, Bool.false_or]
    omega

/-- A borrower waits for a shared card on its way back, and behind it a job that may not borrow is
stuck. -/
def borrowerAhead : List Request :=
  [{ jobId := "h", gpus := 1, borrows := true, priority := 10 },
    { jobId := "w", gpus := 1, borrows := false, priority := 20 }]

/-- The owned card is under a job that may be stopped. -/
def ownedUnderFiller : Pool where
  ownedFree := []
  ownedPresent := 1
  sharedVisible := 1
  sample := some fun _ => ([], 0)
  shared := {"s"}
  coming := ["s"]
  preemptable :=
    [{ jobId := "p", priority := 90, gpus := ["o"], started := 0, owned := 1, borrowed := 0 }]

theorem replan_unstuck_borrowerAhead :
    (decisionOn
        (requeued borrowerAhead ownedUnderFiller
          [{ jobId := "p", gpus := 1, borrows := false, priority := 90, fills := true }])
        (ownedUnderFiller.afterStops borrowerAhead ownedUnderFiller.preemptable ["s", "o"])
        borrowerAhead[1]).any Decision.unstuck = true ↔ 1 + 1 ≤ 1 :=
  (@replan_unstuck_iff borrowerAhead [borrowerAhead[0]] [] _ ownedUnderFiller borrowerAhead[1]
    0 0 1 ["p"] {"o", "s"} ["s", "o"] (by decide) (by decide) (by decide)
    rfl (by decide) (by decide) (by decide) (by decide)).trans (by decide)

/-- **A preemption the plan orders may make no room for the job it is for**: the owned card the
stopped job hands back goes to the borrower ahead, which lets the shared card go that the waiting job
may not use. -/
theorem preemption_makes_no_room :
    ¬ ∀ (requests before rest again : List Request) (pool : Pool) (w : Request)
        (owned shared gap : Nat) (preempts : List JobId) (visible : Finset Uuid)
        (coming : List Uuid),
      requests.Pairwise (fun a b => a.key < b.key) → (requests.map Request.jobId).Nodup →
      (pool.ownedFree ++ pool.borrowable.1 ++ pool.coming).Nodup →
      (∀ p ∈ pool.preemptable, p.Counted visible pool.shared ∧
        ∀ c ∈ p.gpus, c ∉ pool.ownedFree ++ pool.borrowable.1 ++ pool.coming) →
      requests = before ++ w :: rest →
      decisionOn requests pool w = some (.holds w.jobId owned shared gap preempts) →
      0 < gap → preempts ≠ [] →
      again.map Request.key = ((walkTo pool before).stopsFor w gap).map Preemptable.key →
      coming.Perm
        (pool.coming ++ handedBack visible ((walkTo pool before).stopsFor w gap)) →
      (decisionOn (requeued requests pool again)
        (pool.afterStops requests ((walkTo pool before).stopsFor w gap) coming) w).any
        Decision.unstuck = true := by
  intro h
  have hroom := h borrowerAhead [borrowerAhead[0]] []
    [{ jobId := "p", gpus := 1, borrows := false, priority := 90, fills := true }]
    ownedUnderFiller borrowerAhead[1] 0 0 1 ["p"] {"o", "s"} ["s", "o"] (by decide) (by decide)
    (by decide) (by decide) rfl (by decide) (by decide) (by decide) (by decide) (by decide)
  exact absurd hroom (by decide)

end Gpuc.Host
