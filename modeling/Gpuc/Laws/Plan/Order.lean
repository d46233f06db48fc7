import Gpuc.Laws.Plan.Waiting

/-!
# The queue is taken strictly in order

A request that waits keeps every free card it may use that nobody ahead keeps already
(`Walk.Turned.keeps`), and the walk takes no card back from the job it is kept for. So nothing behind
a waiting job is given a card that job could have had, and no card it could use is left for nobody.

The law (`plan_strict`) is over every queue and every pool whose free cards are distinct. A job may
use a shared card when it borrows, and an owned one always. The exception is a filler, which may be
started on cards kept for a job ahead; a filler that is given none of those is in the law too.

What it does not establish: that a job stepped over could not have run. It holds nothing, and the
reading of the shared cards is the only witness of who is on them.
-/

set_option autoImplicit false

namespace Gpuc.Host

open Gpuc.Basis

namespace Walk

variable {w : Walk} {r : Request} {d : Decision} {after : Walk}

/-- A free card of the walk that the request may use. -/
def MayUse (w : Walk) (r : Request) (c : Uuid) : Prop :=
  c ∈ w.pool.ownedFree ∨ (r.borrows = true ∧ c ∈ w.pool.borrowable.1)

/-- **A waiting job leaves no card it may use to nobody**: each is kept for it, or was kept for
another before its turn. -/
theorem Turned.keeps {jobId : JobId} {owned shared gap : Nat} {preempts : List JobId}
    (h : Turned w r (.holds jobId owned shared gap preempts) after) {c : Uuid}
    (hc : w.MayUse r c) : ∃ job, after.held c = some job ∧ (job = r.jobId ∨ w.held c = some job) := by
  cases hheld : w.held c with
  | some job => exact ⟨job, h.held hheld, .inr rfl⟩
  | none =>
    cases h with
    | waits _ hfree =>
      have hoffered : c ∈ w.freeFor r := by
        rw [freeFor_of_short hfree]
        exact mem_offered.mpr ⟨hheld, hc⟩
      refine ⟨r.jobId, ?_, .inl rfl⟩
      rw [waitFor_held, if_pos (List.mem_append_left _ hoffered)]

/-- A job started on cards nobody is waiting on was given cards nobody holds. -/
theorem Turned.unheld {jobId : JobId} {cards : List Uuid} {heldFor : List JobId}
    (h : Turned w r (.assigned jobId cards heldFor) after)
    (hstrict : r.fills = false ∨ heldFor = []) {c : Uuid} (hc : c ∈ cards) : w.held c = none := by
  rcases hstrict with hfills | rfl
  · exact h.unheldOnly hfills hc
  · cases h with
    | fits => exact (mem_freeFor w r hc).1
    | fills _ _ _ _ _ hfill =>
      obtain ⟨-, -, hnone⟩ := fill_eq_some _ r hfill
      cases hheld : w.held c with
      | none => rfl
      | some job =>
        have hmem : job ∈ (cards.filterMap (w.readFor r).held).eraseDups :=
          List.mem_eraseDups.mpr (List.mem_filterMap.mpr ⟨c, hc, by rw [readFor_held]; exact hheld⟩)
        rw [← hnone] at hmem
        exact absurd hmem List.not_mem_nil

/-- A job left waiting was offered fewer cards than it asked for. -/
theorem Turned.short (h : Turned w r d after) (hwaits : d.waits = true) :
    (w.offered r).length < r.gpus := by
  cases h with
  | passed _ hfree => rwa [freeFor_of_short hfree] at hfree
  | waits _ hfree => rwa [freeFor_of_short hfree] at hfree
  | _ => cases hwaits

end Walk

/-! ## Over the rest of the queue -/

/-- What is held stays held to the end of the queue. -/
theorem planFrom_held {w : Walk} (rs : List Request) {c : Uuid} {job : JobId}
    (h : w.held c = some job) : (planFrom w rs).2.held c = some job := by
  induction rs generalizing w with
  | nil => exact h
  | cons r rs ih => exact ih ((Walk.turned w r).held h)

theorem planFrom_spent (w : Walk) (rs : List Request) : w.pool.Spent (planFrom w rs).2.pool := by
  induction rs generalizing w with
  | nil => exact .refl _
  | cons r rs ih => exact (Walk.turned w r).spent.trans (ih _)

theorem walkTo_append (pool : Pool) (before rest : List Request) :
    walkTo pool (before ++ rest) = (planFrom (walkTo pool before) rest).2 := by
  rw [walkTo, planFrom_append]
  rfl

/-- A card that a request may use later in the queue, or once it is through, it may use now. -/
theorem Walk.MayUse.back {pool : Pool} {before rest : List Request} {r : Request} {c : Uuid}
    (h : (walkTo pool (before ++ rest)).MayUse r c) : (walkTo pool before).MayUse r c := by
  have hspent := planFrom_spent (walkTo pool before) rest
  rw [walkTo_append] at h
  exact h.imp (fun howned => hspent.owned.subset howned)
    (fun hshared => ⟨hshared.1, hspent.shared.subset hshared.2⟩)

section Waiting
variable {pool : Pool} {before : List Request} {q : Request} {jobId : JobId}
  {owned shared gap : Nat} {preempts : List JobId}
  (h : ((walkTo pool before).turn q).1 = .holds jobId owned shared gap preempts)
include h

/-- **A card a waiting job may use is held for it, or for a job waiting ahead of it**, to the end of
the queue. -/
theorem held_of_mayUse (rest : List Request) {c : Uuid}
    (hc : (walkTo pool (before ++ q :: rest)).MayUse q c) :
    ∃ job, (walkTo pool (before ++ q :: rest)).held c = some job ∧
      (job = q.jobId ∨ ∃ owned shared gap preempts,
        .holds job owned shared gap preempts ∈ plan before pool) := by
  have hturned := Walk.turned (walkTo pool before) q
  rw [h] at hturned
  obtain ⟨job, hheld, howner⟩ := hturned.keeps hc.back
  refine ⟨job, ?_, howner.imp id (held_isHolder pool before)⟩
  rw [walkTo_append, planFrom_cons]
  exact planFrom_held rest hheld

/-- **What goes to a job behind a waiting one is of no use to that one**: it is a shared card, and the
waiting job does not borrow. -/
theorem useless_of_unheld (hpool : pool.Distinct) (mid : List Request) {c : Uuid}
    (hfree : c ∈ (walkTo pool (before ++ q :: mid)).pool.ownedFree ∨
      c ∈ (walkTo pool (before ++ q :: mid)).pool.borrowable.1)
    (hunheld : (walkTo pool (before ++ q :: mid)).held c = none) :
    c ∉ pool.ownedFree ∧ c ∈ pool.borrowable.1 ∧ q.borrows = false := by
  have huseless : ¬ (walkTo pool (before ++ q :: mid)).MayUse q c := by
    intro hc
    obtain ⟨job, hheld, -⟩ := held_of_mayUse h mid hc
    rw [hunheld] at hheld
    cases hheld
  have hshared : c ∈ (walkTo pool (before ++ q :: mid)).pool.borrowable.1 :=
    hfree.resolve_left fun howned => huseless (.inl howned)
  have hread := (walkTo_spent pool (before ++ q :: mid)).shared.subset hshared
  refine ⟨fun howned => hpool.apart howned hread, hread, ?_⟩
  cases hborrows : q.borrows with
  | false => rfl
  | true => exact absurd (.inr ⟨hborrows, hshared⟩) huseless

end Waiting

/-- **The queue is taken strictly in order, and no card stays idle that a waiting job could use.** -/
theorem plan_strict (requests : List Request) {pool : Pool} (hpool : pool.Distinct) :
    (∀ before q mid r rest holder owned shared gap preempts jobId cards heldFor,
      requests = before ++ q :: mid ++ r :: rest →
      (plan requests pool)[before.length]? = some (.holds holder owned shared gap preempts) →
      (plan requests pool)[(before ++ q :: mid).length]? = some (.assigned jobId cards heldFor) →
      (r.fills = false ∨ heldFor = []) →
      ∀ c ∈ cards, c ∉ pool.ownedFree ∧ c ∈ pool.borrowable.1 ∧ q.borrows = false) ∧
    (∀ before q rest holder owned shared gap preempts,
      requests = before ++ q :: rest →
      (plan requests pool)[before.length]? = some (.holds holder owned shared gap preempts) →
      ∀ c, (walkTo pool requests).MayUse q c →
        ∃ job, (walkTo pool requests).held c = some job ∧
          (job = q.jobId ∨ ∃ owned shared gap preempts,
            .holds job owned shared gap preempts ∈ plan before pool)) ∧
    (∀ before r rest d,
      requests = before ++ r :: rest →
      (plan requests pool)[before.length]? = some d → d.waits = true →
      ((walkTo pool before).offered r).Nodup ∧
        (∀ c, c ∈ (walkTo pool before).offered r ↔
          (walkTo pool before).MayUse r c ∧ (walkTo pool before).held c = none) ∧
        ((walkTo pool before).offered r).length < r.gpus) := by
  refine ⟨?_, ?_, ?_⟩
  · rintro before q mid r rest holder owned shared gap preempts jobId cards heldFor hrequests hholds
      hassigned hstrict c hc
    have hholder : ((walkTo pool before).turn q).1 = .holds holder owned shared gap preempts := by
      rw [hrequests, List.append_assoc, List.cons_append, plan_at] at hholds
      exact Option.some.inj hholds
    rw [hrequests, plan_at] at hassigned
    have hturned := Walk.turned (walkTo pool (before ++ q :: mid)) r
    rw [Option.some.inj hassigned] at hturned
    have hdistinct := (walkTo_spent pool (before ++ q :: mid)).distinct hpool
    exact useless_of_unheld hholder hpool mid (hturned.gives hdistinct hc).1
      (hturned.unheld hstrict hc)
  · rintro before q rest holder owned shared gap preempts rfl hholds c hc
    rw [plan_at] at hholds
    exact held_of_mayUse (Option.some.inj hholds) rest hc
  · rintro before r rest d rfl hd hwaits
    rw [plan_at] at hd
    have hturned := Walk.turned (walkTo pool before) r
    rw [Option.some.inj hd] at hturned
    have hdistinct := (walkTo_spent pool before).distinct hpool
    refine ⟨Walk.nodup_offered hdistinct r, fun c => ?_, hturned.short hwaits⟩
    rw [Walk.mem_offered, and_comm]
    rfl

theorem plan_strict_waiterAndFiller :
    plan waiterAndFiller oneOfEach = [.holds "h" 1 0 1 [], .assigned "f" ["s"] []] ∧
      ∀ c ∈ ["s"], c ∉ oneOfEach.ownedFree ∧ c ∈ oneOfEach.borrowable.1 ∧
        waiterAndFiller[0].borrows = false := by
  refine ⟨by decide, ?_⟩
  exact (plan_strict waiterAndFiller oneOfEach_distinct).1 [] waiterAndFiller[0] []
    waiterAndFiller[1] [] "h" 1 0 1 [] "f" ["s"] [] rfl (by decide) (by decide) (.inr rfl)

end Gpuc.Host
