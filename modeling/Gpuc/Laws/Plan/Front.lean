import Gpuc.Laws.Plan.Waiting

/-!
# The first job in the queue that could ever run

A request for more cards than those of other people leave is stepped over, and holds nothing
(`fresh_walkTo`): behind such requests only, the walk stands as it began. The job it comes to there is
at the front of the queue, whatever its place in the listing. It is offered every free card it may use,
so it is started as soon as they are enough (`front_assigned`); until then it holds them all, and once
those on their way back make up the rest, nobody else is given one of them (`front_keeps`).
-/

set_option autoImplicit false

namespace Gpuc.Host

open Gpuc.Basis

/-- **Every decision is the one of a request**, made by the walk that has passed the ones before it. -/
theorem mem_plan {rs : List Request} {pool : Pool} {d : Decision} :
    d ∈ plan rs pool ↔
      ∃ before r rest, rs = before ++ r :: rest ∧ d = ((walkTo pool before).turn r).1 := by
  constructor
  · intro hd
    induction rs using List.reverseRecOn with
    | nil => exact absurd hd List.not_mem_nil
    | append_singleton before r ih =>
      rw [plan_snoc] at hd
      rcases List.mem_append.mp hd with hd | hd
      · obtain ⟨front, q, rest, rfl, heq⟩ := ih hd
        exact ⟨front, q, rest ++ [r], by simp, heq⟩
      · exact ⟨before, r, [], rfl, List.mem_singleton.mp hd⟩
  · rintro ⟨before, r, rest, rfl, rfl⟩
    rw [plan_split]
    exact List.mem_append_right _ List.mem_cons_self

/-! ## What a pool could ever give -/

namespace Pool

/-- The cards a request could have, were all of ours free. -/
def oursFor (pool : Pool) (r : Request) : Int :=
  pool.ownedPresent
    + if r.borrows then (pool.sharedVisible : Int) - pool.borrowable.2.theirs else 0

/-- The free cards of a pool a request may use, owned before shared. -/
def freeFor (pool : Pool) (r : Request) : List Uuid :=
  pool.ownedFree ++ if r.borrows then pool.borrowable.1 else []

/-- The cards of a pool on their way back that a request may use. -/
def comingFor (pool : Pool) (r : Request) : List Uuid :=
  pool.coming.filter fun c => r.borrows || c ∉ pool.shared

/-- **A pool counts its cards**: the free ones are among those nvidia-smi reports, and a shared card
somebody else is on is not free. -/
structure Counted (pool : Pool) : Prop where
  owned : pool.ownedFree.length ≤ pool.ownedPresent
  shared : pool.borrowable.1.length + pool.borrowable.2.theirs ≤ pool.sharedVisible

/-- No more cards are free than the host could ever give. -/
theorem Counted.free_le {pool : Pool} (h : pool.Counted) (r : Request) :
    ((pool.freeFor r).length : Int) ≤ pool.oursFor r := by
  obtain ⟨howned, hshared⟩ := h
  unfold freeFor oursFor
  cases r.borrows with
  | false =>
    simp only [Bool.false_eq_true, if_false, List.append_nil]
    omega
  | true =>
    simp only [if_true, List.length_append]
    omega

/-- A job the host could give its cards does not fail. -/
theorem failure_none {pool : Pool} {r : Request} (h : (r.gpus : Int) ≤ pool.oursFor r)
    (absent : List String) :
    capacityFailure r.gpus pool.ownedPresent pool.sharedVisible r.borrows absent = none := by
  unfold oursFor at h
  unfold capacityFailure
  refine if_pos ?_
  cases hborrows : r.borrows with
  | false =>
    simp only [hborrows, Bool.false_eq_true, if_false] at h ⊢
    omega
  | true =>
    simp only [hborrows, if_true] at h ⊢
    omega

end Pool

/-! ## A walk that holds nothing yet -/

namespace Walk

/-- **A walk that has handed out and held nothing**, though it may have read the shared cards. -/
def Fresh (pool : Pool) (w : Walk) : Prop :=
  w = Walk.start pool ∨ w = Walk.start pool.borrowable.2

namespace Fresh
variable {pool : Pool} {w : Walk} (h : Fresh pool w)
include h

theorem held (c : Uuid) : w.held c = none := by
  rcases h with rfl | rfl <;> rfl

theorem covered : w.covered = ∅ := by
  rcases h with rfl | rfl <;> rfl

theorem stuck : w.stuck = false := by
  rcases h with rfl | rfl <;> rfl

theorem spent : pool.Spent w.pool := by
  rcases h with rfl | rfl
  · exact Pool.Spent.refl pool
  · exact Pool.spent_borrowable pool

theorem ownedFree : w.pool.ownedFree = pool.ownedFree := by
  rcases h with rfl | rfl
  · rfl
  · show pool.borrowable.2.ownedFree = pool.ownedFree
    rw [Pool.borrowable_eq]

theorem borrowable : w.pool.borrowable.1 = pool.borrowable.1 := by
  rcases h with rfl | rfl
  · rfl
  · exact congrArg Prod.fst (Pool.borrowable_borrowable pool)

theorem unheld (cards : List Uuid) : w.unheld cards = cards := by
  simp [Walk.unheld, h.held]

theorem offered (r : Request) : w.offered r = pool.freeFor r := by
  unfold Walk.offered Pool.freeFor
  rw [h.unheld, h.unheld, h.ownedFree, h.borrowable]

theorem freeFor (r : Request) : w.freeFor r = (pool.freeFor r).take r.gpus := by
  rw [freeFor_eq, h.offered]

theorem readFor (r : Request) : Fresh pool (w.readFor r) := by
  unfold Walk.readFor
  split
  · refine .inr ?_
    rcases h with rfl | rfl
    · rfl
    · show ({ Walk.start pool.borrowable.2 with pool := pool.borrowable.2.borrowable.2 } : Walk) = _
      rw [Pool.borrowable_borrowable]
      rfl
  · exact h

/-- What the host could give is what the pool could. -/
theorem oursFor {r : Request} (hshort : (w.freeFor r).length < r.gpus) :
    w.oursFor r = pool.oursFor r := by
  rw [oursFor_of_short hshort, h.spent.ownedPresent, h.spent.sharedVisible, h.spent.theirs]
  rfl

/-- **A request for more than the host could ever give leaves the walk as it was.** -/
theorem turn_of_less (hcounted : pool.Counted) {r : Request} (hless : pool.oursFor r < r.gpus) :
    Fresh pool (w.turn r).2 ∧ (w.turn r).1.gpus = [] ∧
      ∀ owned shared gap preempts, (w.turn r).1 ≠ .holds r.jobId owned shared gap preempts := by
  have hshort : (w.freeFor r).length < r.gpus := by
    have hfree := hcounted.free_le r
    have htake : (w.freeFor r).length ≤ (pool.freeFor r).length := by
      rw [h.freeFor]
      exact List.length_take_le' _ _
    omega
  have hours := h.oursFor hshort
  have hturned := Walk.turned w r
  generalize (w.turn r).1 = d at hturned ⊢
  generalize (w.turn r).2 = after at hturned ⊢
  cases hturned with
  | fails => exact ⟨h, rfl, fun _ _ _ _ => nofun⟩
  | passed => exact ⟨h.readFor r, rfl, fun _ _ _ _ => nofun⟩
  | fits _ hfree => omega
  | fills _ _ hours' => omega
  | waits _ _ hours' => omega

/-- How many of the cards on their way back a request may wait for. -/
theorem length_comingFor (r : Request) :
    (w.comingFor r).length = min (r.gpus - (w.freeFor r).length) (pool.comingFor r).length := by
  unfold Walk.comingFor
  rw [List.length_take, length_sortedBy, h.unheld, h.spent.coming, h.spent.sharedCards]
  rfl

theorem shortFor (r : Request) :
    w.shortFor r = r.gpus - (w.freeFor r).length - (pool.comingFor r).length := by
  unfold Walk.shortFor
  rw [h.length_comingFor]
  omega

end Fresh

end Walk

/-- **Behind requests for more than the host could ever give, the walk stands as it began**, and none
of them is handed or held anything. -/
theorem fresh_walkTo {pool : Pool} (hcounted : pool.Counted) {ahead : List Request}
    (hless : ∀ r ∈ ahead, pool.oursFor r < r.gpus) :
    Walk.Fresh pool (walkTo pool ahead) ∧
      ∀ d ∈ plan ahead pool, d.gpus = [] ∧
        ∀ jobId owned shared gap preempts, d ≠ .holds jobId owned shared gap preempts := by
  induction ahead using List.reverseRecOn with
  | nil => exact ⟨.inl rfl, fun d hd => absurd hd List.not_mem_nil⟩
  | append_singleton ahead r ih =>
    obtain ⟨hfresh, hnone⟩ := ih fun r hr => hless r (List.mem_append_left _ hr)
    have hlast := hless r (List.mem_append_right _ (List.mem_singleton_self r))
    obtain ⟨hafter, hgpus, hholds⟩ := hfresh.turn_of_less hcounted hlast
    rw [walkTo_snoc, plan_snoc]
    refine ⟨hafter, fun d hd => ?_⟩
    rcases List.mem_append.mp hd with hd | hd
    · exact hnone d hd
    · rw [List.mem_singleton.mp hd]
      refine ⟨hgpus, fun jobId owned shared gap preempts heq => ?_⟩
      have hjob := (Walk.turned (walkTo pool ahead) r).jobId
      rw [heq] at hjob
      obtain rfl : jobId = r.jobId := hjob
      exact hholds _ _ _ _ heq

/-! ## The job at the front -/

section Front
variable {pool : Pool} {ahead : List Request} {r : Request} (hcounted : pool.Counted)
  (hless : ∀ q ∈ ahead, pool.oursFor q < q.gpus) (hours : (r.gpus : Int) ≤ pool.oursFor r)
include hcounted hless hours

theorem front_failure : (walkTo pool ahead).failureFor r = none := by
  have hspent := (fresh_walkTo hcounted hless).1.spent
  unfold Walk.failureFor
  rw [hspent.ownedPresent, hspent.sharedVisible]
  exact Pool.failure_none hours _

/-- **The job at the front is started when the free cards it may use are enough.** -/
theorem front_assigned (henough : r.gpus ≤ (pool.freeFor r).length) (rest : List Request) :
    .assigned r.jobId ((pool.freeFor r).take r.gpus) [] ∈ plan (ahead ++ r :: rest) pool := by
  have hfresh := (fresh_walkTo hcounted hless).1
  have hfree := hfresh.freeFor r
  have hlength : ((walkTo pool ahead).freeFor r).length = r.gpus := by
    rw [hfree, List.length_take]
    omega
  have hcap := front_failure hcounted hless hours
  rw [plan_split, ← hfree]
  refine List.mem_append_right _ (List.mem_cons.mpr (.inl ?_))
  simp only [Walk.turn, hcap, hlength, if_true]

/-- Until then it waits: nothing is held that it could fill. -/
theorem front_waits (hpool : pool.Distinct) (hshort : (pool.freeFor r).length < r.gpus) :
    (walkTo pool ahead).turn r = (walkTo pool ahead).waitFor r ∧
      (walkTo pool ahead).freeFor r = pool.freeFor r := by
  have hfresh := (fresh_walkTo hcounted hless).1
  have hall : (walkTo pool ahead).freeFor r = pool.freeFor r := by
    rw [hfresh.freeFor]
    exact List.take_of_length_le (by omega)
  have hlt : ((walkTo pool ahead).freeFor r).length < r.gpus := by rwa [hall]
  refine ⟨?_, hall⟩
  apply Walk.turn_waits (front_failure hcounted hless hours) hlt
  · rw [hfresh.oursFor hlt]
    exact hours
  · intro _
    apply Walk.fill_eq_none (hfresh.spent.distinct hpool)
    · intro c job hheld
      rw [hfresh.held] at hheld
      cases hheld
    · exact hlt

/-- **Once the cards on their way back make up the rest, the free ones are kept for it.** -/
theorem front_keeps (hpool : pool.Distinct) (hshort : (pool.freeFor r).length < r.gpus)
    (hcoming : r.gpus ≤ (pool.freeFor r).length + (pool.comingFor r).length) (rest : List Request)
    {c : Uuid} (hc : c ∈ pool.freeFor r) :
    ∀ d ∈ plan (ahead ++ r :: rest) pool, c ∉ d.gpus := by
  have hfresh := (fresh_walkTo hcounted hless).1
  obtain ⟨hturn, hall⟩ := front_waits hcounted hless hours hpool hshort
  have hgap : (walkTo pool ahead).shortFor r = 0 := by
    rw [hfresh.shortFor, hall]
    omega
  apply freeFor_notGiven hpool rest _ hturn (by rwa [hall])
  rw [Walk.waitFor_covered, if_pos (.inl hgap)]
  exact Finset.mem_insert_self _ _

end Front

end Gpuc.Host
