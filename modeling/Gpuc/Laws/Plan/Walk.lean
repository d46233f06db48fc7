import Gpuc.Host.Plan

/-!
# The walk along the queue hands every card out once

What one turn of the walk can do is said once, by `Turned`: a request fails, fits, is stepped over,
fills, or waits, with the walk each leaves. Every law of a whole pass follows the decisions along the
queue from that.

The law (`plan_hands_out`): over every queue and every pool whose free cards are distinct, each job
that is started gets exactly the cards it asked for, all free in the pool, no card goes to two jobs,
a job that may not borrow gets owned cards, and the held cards stay with their holders except where a
filler may take them. What a card is held for is the walk's own record (`heldBy`), and a covered job
is read off the decisions (`covered_iff`).

What it does not establish: that the cards in the pool are really idle. That is the dispatcher's
accounting, and `Gpuc.Laws.Dispatcher` is about it.
-/

set_option autoImplicit false

namespace Gpuc.Host

open Gpuc.Basis

/-! ## The pool -/

/-- **The free cards of a pool are distinct**: the owned ones, the sampled shared ones, and the two
lists from each other. -/
structure Pool.Distinct (pool : Pool) : Prop where
  owned : pool.ownedFree.Nodup
  shared : pool.borrowable.1.Nodup
  apart : pool.ownedFree.Disjoint pool.borrowable.1

namespace Pool

theorem borrowable_of_some {pool : Pool} {free : List Uuid} (h : pool.sharedFree = some free) :
    pool.borrowable = (free, pool) := by
  unfold borrowable
  rw [h]

@[simp] theorem borrowable_sharedFree (pool : Pool) :
    pool.borrowable.2.sharedFree = some pool.borrowable.1 := by
  cases hfree : pool.sharedFree with
  | some free => rw [borrowable_of_some hfree, hfree]
  | none => unfold borrowable; rw [hfree]; cases pool.sample <;> rfl

/-- A second reading is the first one. -/
@[simp] theorem borrowable_borrowable (pool : Pool) :
    pool.borrowable.2.borrowable = pool.borrowable :=
  borrowable_of_some (borrowable_sharedFree pool)

/-- A reading changes what is known of the shared cards, and nothing else. -/
theorem borrowable_eq (pool : Pool) :
    pool.borrowable.2 = { pool with
      sharedFree := pool.borrowable.2.sharedFree
      theirs := pool.borrowable.2.theirs
      calls := pool.borrowable.2.calls } := by
  cases hfree : pool.sharedFree with
  | some free => rw [borrowable_of_some hfree]
  | none => unfold borrowable; rw [hfree]; cases pool.sample <;> rfl

/-- The shared cards are read once: a pool that has been read is not read again. -/
theorem borrowable_calls (pool : Pool) :
    pool.borrowable.2.calls = pool.calls + if pool.sharedFree = none ∧ pool.sample ≠ none then 1 else 0 := by
  cases hfree : pool.sharedFree with
  | some free => rw [borrowable_of_some hfree]; simp
  | none =>
    cases hsample : pool.sample with
    | none => simp [borrowable, hfree, hsample]
    | some sample => simp [borrowable, hfree, hsample]

section Take
variable (pool : Pool) (cards : List Uuid)

@[simp] theorem mem_take_ownedFree {c : Uuid} :
    c ∈ (pool.take cards).ownedFree ↔ c ∈ pool.ownedFree ∧ c ∉ cards := by
  simp [take]

/-- What is left to borrow once cards are taken: if the shared cards have been read, those not
taken. -/
theorem take_borrowable :
    (pool.take cards).borrowable.1
      = if pool.sharedFree = none then pool.borrowable.1
        else pool.borrowable.1.filter fun c => c ∉ cards := by
  cases hfree : pool.sharedFree with
  | some free =>
    have htake : (pool.take cards).sharedFree = some (free.filter fun c => c ∉ cards) := by
      simp [take, hfree]
    rw [borrowable_of_some htake, borrowable_of_some hfree]
    simp
  | none => simp [borrowable, take, hfree]; cases pool.sample <;> rfl

theorem take_reading :
    (pool.take cards).borrowable.2.theirs = pool.borrowable.2.theirs ∧
      (pool.take cards).borrowable.2.calls = pool.borrowable.2.calls := by
  cases hfree : pool.sharedFree with
  | some free =>
    have htake : (pool.take cards).sharedFree = some (free.filter fun c => c ∉ cards) := by
      simp [take, hfree]
    rw [borrowable_of_some htake, borrowable_of_some hfree]
    exact ⟨rfl, rfl⟩
  | none => simp [borrowable, take, hfree]; cases pool.sample <;> exact ⟨rfl, rfl⟩

end Take

/-- **What a pool becomes as a walk consumes it**: its free cards are handed out, and all else,
the reading of the shared cards included, stays. -/
structure Spent (pool later : Pool) : Prop where
  owned : later.ownedFree.Sublist pool.ownedFree
  shared : later.borrowable.1.Sublist pool.borrowable.1
  ownedPresent : later.ownedPresent = pool.ownedPresent
  sharedVisible : later.sharedVisible = pool.sharedVisible
  ownedAbsent : later.ownedAbsent = pool.ownedAbsent
  sharedAbsent : later.sharedAbsent = pool.sharedAbsent
  sharedCards : later.shared = pool.shared
  coming : later.coming = pool.coming
  preemptable : later.preemptable = pool.preemptable
  theirs : later.borrowable.2.theirs = pool.borrowable.2.theirs
  calls : later.borrowable.2.calls = pool.borrowable.2.calls

theorem Spent.refl (pool : Pool) : pool.Spent pool :=
  ⟨.refl _, .refl _, rfl, rfl, rfl, rfl, rfl, rfl, rfl, rfl, rfl⟩

theorem Spent.trans {a b c : Pool} (hab : a.Spent b) (hbc : b.Spent c) : a.Spent c :=
  ⟨hbc.owned.trans hab.owned, hbc.shared.trans hab.shared, hbc.ownedPresent.trans hab.ownedPresent,
    hbc.sharedVisible.trans hab.sharedVisible, hbc.ownedAbsent.trans hab.ownedAbsent,
    hbc.sharedAbsent.trans hab.sharedAbsent, hbc.sharedCards.trans hab.sharedCards,
    hbc.coming.trans hab.coming, hbc.preemptable.trans hab.preemptable,
    hbc.theirs.trans hab.theirs, hbc.calls.trans hab.calls⟩

theorem spent_borrowable (pool : Pool) : pool.Spent pool.borrowable.2 := by
  have hread := borrowable_borrowable pool
  refine ⟨?_, by rw [hread], ?_, ?_, ?_, ?_, ?_, ?_, ?_, by rw [hread], by rw [hread]⟩
  · rw [borrowable_eq]
  all_goals rw [borrowable_eq]

theorem spent_take (pool : Pool) (cards : List Uuid) : pool.Spent (pool.take cards) := by
  obtain ⟨htheirs, hcalls⟩ := take_reading pool cards
  refine ⟨List.filter_sublist, ?_, rfl, rfl, rfl, rfl, rfl, rfl, rfl, htheirs, hcalls⟩
  rw [take_borrowable]
  split
  · exact .refl _
  · exact List.filter_sublist

theorem Spent.distinct {pool later : Pool} (h : pool.Spent later) (hpool : pool.Distinct) :
    later.Distinct :=
  ⟨h.owned.nodup hpool.owned, h.shared.nodup hpool.shared, fun _ hc hs =>
    hpool.apart (h.owned.subset hc) (h.shared.subset hs)⟩

/-- A card that has been taken is not on offer any more. A pool whose shared cards have not been read
has given owned cards only. -/
theorem not_mem_take {pool : Pool} (hpool : pool.Distinct) {cards : List Uuid} {c : Uuid}
    (hc : c ∈ cards) (hread : pool.sharedFree = none → c ∈ pool.ownedFree) :
    c ∉ (pool.take cards).ownedFree ∧ c ∉ (pool.take cards).borrowable.1 := by
  refine ⟨fun h => ((mem_take_ownedFree pool cards).mp h).2 hc, fun h => ?_⟩
  rw [take_borrowable] at h
  split at h
  · next hnone => exact hpool.apart (hread hnone) h
  · simp [hc] at h

end Pool

/-! ## Taking the reading -/

namespace Walk

variable (w : Walk) (r : Request)

@[simp] theorem readFor_held : (w.readFor r).held = w.held := by
  unfold readFor; split <;> rfl

@[simp] theorem readFor_covered : (w.readFor r).covered = w.covered := by
  unfold readFor; split <;> rfl

@[simp] theorem readFor_stuck : (w.readFor r).stuck = w.stuck := by
  unfold readFor; split <;> rfl

/-- The pool after the reading differs from the one before in what is known of the shared cards. -/
theorem readFor_pool :
    (w.readFor r).pool = { w.pool with
      sharedFree := (w.readFor r).pool.sharedFree
      theirs := (w.readFor r).pool.theirs
      calls := (w.readFor r).pool.calls } := by
  unfold readFor
  split
  · exact w.pool.borrowable_eq
  · rfl

@[simp] theorem readFor_ownedFree : (w.readFor r).pool.ownedFree = w.pool.ownedFree := by
  rw [readFor_pool]

@[simp] theorem readFor_ownedPresent : (w.readFor r).pool.ownedPresent = w.pool.ownedPresent := by
  rw [readFor_pool]

@[simp] theorem readFor_sharedVisible : (w.readFor r).pool.sharedVisible = w.pool.sharedVisible := by
  rw [readFor_pool]

@[simp] theorem readFor_shared : (w.readFor r).pool.shared = w.pool.shared := by
  rw [readFor_pool]

@[simp] theorem readFor_coming : (w.readFor r).pool.coming = w.pool.coming := by
  rw [readFor_pool]

@[simp] theorem readFor_preemptable : (w.readFor r).pool.preemptable = w.pool.preemptable := by
  rw [readFor_pool]

@[simp] theorem readFor_borrowable : (w.readFor r).pool.borrowable.1 = w.pool.borrowable.1 := by
  unfold readFor
  split
  · exact congrArg Prod.fst (Pool.borrowable_borrowable w.pool)
  · rfl

theorem readFor_sharedFree (h : w.asks r = true) :
    (w.readFor r).pool.sharedFree = some w.pool.borrowable.1 := by
  rw [readFor, if_pos h]
  exact Pool.borrowable_sharedFree w.pool

/-! ## The cards a request is offered -/

theorem mem_unheld {cards : List Uuid} {c : Uuid} :
    c ∈ w.unheld cards ↔ c ∈ cards ∧ w.held c = none := by
  simp [unheld]

theorem length_ownedFor_le : (w.ownedFor r).length ≤ r.gpus :=
  (List.length_take_le _ _)

theorem length_freeFor_le : (w.freeFor r).length ≤ r.gpus := by
  have howned := length_ownedFor_le w r
  unfold freeFor
  split
  · rw [List.length_append]
    have htake := List.length_take_le (r.gpus - (w.ownedFor r).length) (w.unheld w.pool.borrowable.1)
    omega
  · exact howned

/-- A borrower that is short after the free cards has had the shared ones read. -/
theorem asks_of_short (hborrows : r.borrows = true) (h : (w.freeFor r).length < r.gpus) :
    w.asks r = true := by
  by_contra hasks
  rw [freeFor, if_neg hasks] at h
  exact hasks (by simp [asks, h, hborrows])

/-- What a request is offered is free and held by nobody, and a shared card is offered to a borrower
only. -/
theorem mem_freeFor {c : Uuid} (h : c ∈ w.freeFor r) :
    w.held c = none ∧ (c ∈ w.pool.ownedFree ∨ (r.borrows = true ∧ c ∈ w.pool.borrowable.1)) := by
  have howned : c ∈ w.ownedFor r → w.held c = none ∧ c ∈ w.pool.ownedFree := fun hc =>
    ((mem_unheld w).mp (List.mem_of_mem_take hc)).symm
  unfold freeFor at h
  split at h
  · next hasks =>
    rcases List.mem_append.mp h with hc | hc
    · exact ⟨(howned hc).1, .inl (howned hc).2⟩
    · have hshared := (mem_unheld w).mp (List.mem_of_mem_take hc)
      have hborrows : r.borrows = true := (Bool.and_eq_true_iff.mp hasks).2
      exact ⟨hshared.2, .inr ⟨hborrows, hshared.1⟩⟩
  · exact ⟨(howned h).1, .inl (howned h).2⟩

theorem nodup_freeFor (hpool : w.pool.Distinct) : (w.freeFor r).Nodup := by
  have howned : (w.ownedFor r).Nodup :=
    (List.take_sublist _ _).nodup (hpool.owned.filter _)
  unfold freeFor
  split
  · refine howned.append ((List.take_sublist _ _).nodup (hpool.shared.filter _)) ?_
    intro c hc hs
    exact hpool.apart ((mem_unheld w).mp (List.mem_of_mem_take hc)).1
      ((mem_unheld w).mp (List.mem_of_mem_take hs)).1
  · exact howned

/-- **Owned cards first**: a request offered a card it does not own was offered every owned free card
nobody ahead holds. -/
theorem ownedFree_of_mem_freeFor {c c' : Uuid} (h : c ∈ w.freeFor r) (hc : c ∉ w.pool.ownedFree)
    (hc' : c' ∈ w.pool.ownedFree) (hheld : w.held c' = none) : c' ∈ w.freeFor r := by
  unfold freeFor at h ⊢
  split at h
  · next hasks =>
    rw [if_pos hasks]
    have hshort : (w.ownedFor r).length < r.gpus := by
      simpa using (Bool.and_eq_true_iff.mp hasks).1
    have hall : w.ownedFor r = w.unheld w.pool.ownedFree := by
      refine List.take_of_length_le ?_
      by_contra hlong
      rw [ownedFor, List.length_take] at hshort
      omega
    refine List.mem_append_left _ ?_
    rw [hall]
    exact (mem_unheld w).mpr ⟨hc', hheld⟩
  · exact absurd ((mem_unheld w).mp (List.mem_of_mem_take h)).1 hc

/-! ## What a filler takes -/

theorem mem_openFor {c : Uuid} :
    c ∈ w.openFor r ↔ w.openToIt c = true ∧
      (c ∈ w.pool.ownedFree ∨ (r.borrows = true ∧ c ∈ w.pool.borrowable.1)) := by
  unfold openFor
  cases r.borrows <;> simp <;> tauto

theorem nodup_openFor (hpool : w.pool.Distinct) : (w.openFor r).Nodup := by
  have howned : (sortedBy (fun c => (w.held c).isSome)
      (w.pool.ownedFree.filter w.openToIt)).Nodup := nodup_sortedBy.mpr (hpool.owned.filter _)
  unfold openFor
  cases r.borrows with
  | false => simpa using howned
  | true =>
    refine howned.append (nodup_sortedBy.mpr (hpool.shared.filter _)) ?_
    intro c hc hs
    exact hpool.apart (List.mem_of_mem_filter (mem_sortedBy.mp hc))
      (List.mem_of_mem_filter (mem_sortedBy.mp hs))

/-- What a fill that starts the job gives it. -/
theorem fill_eq_some {cards : List Uuid} {heldFor : List JobId}
    (h : (w.fill r).1 = some (cards, heldFor)) :
    cards = (w.openFor r).take r.gpus ∧ cards.length = r.gpus ∧
      heldFor = (cards.filterMap w.held).eraseDups := by
  by_cases hshort : ((w.openFor r).take r.gpus).length < r.gpus
  · simp only [fill, if_pos hshort] at h
    cases h
  · simp only [fill, if_neg hshort] at h
    obtain ⟨rfl, rfl⟩ := Prod.mk.inj (Option.some.inj h)
    exact ⟨rfl, le_antisymm (List.length_take_le _ _) (not_lt.mp hshort), rfl⟩

/-- Once the shared cards have been read, looking for a fill reads nothing. -/
theorem fill_pool (h : r.borrows = true → ∃ free, w.pool.sharedFree = some free) :
    (w.fill r).2 = w.pool := by
  have hpool : (if r.borrows then w.pool.borrowable.2 else w.pool) = w.pool := by
    cases hborrows : r.borrows with
    | false => rfl
    | true =>
      obtain ⟨free, hfree⟩ := h hborrows
      exact congrArg Prod.snd (Pool.borrowable_of_some hfree)
  by_cases hshort : ((w.openFor r).take r.gpus).length < r.gpus
  · simp only [fill, if_pos hshort, hpool]
  · simp only [fill, if_neg hshort, hpool]

/-- **Owned before borrowed**: a fill that reaches a shared card has every owned free card open to
it. -/
theorem ownedFree_of_mem_fill {cards : List Uuid} {heldFor : List JobId}
    (h : (w.fill r).1 = some (cards, heldFor)) {c c' : Uuid} (hmem : c ∈ cards)
    (hc : c ∉ w.pool.ownedFree) (hc' : c' ∈ w.pool.ownedFree) (hopen : w.openToIt c' = true) :
    c' ∈ cards := by
  obtain ⟨rfl, hlength, -⟩ := fill_eq_some w r h
  rw [openFor, List.take_append] at hmem ⊢
  rcases List.mem_append.mp hmem with hleft | hright
  · exact absurd (List.mem_of_mem_filter (mem_sortedBy.mp (List.mem_of_mem_take hleft))) hc
  · refine List.mem_append_left _ ?_
    rw [List.take_of_length_le]
    · exact mem_sortedBy.mpr (List.mem_filter.mpr ⟨hc', hopen⟩)
    · by_contra hlong
      rw [Nat.sub_eq_zero_of_le (by omega), List.take_zero] at hright
      exact absurd hright List.not_mem_nil

/-- The walk once a request has been offered its cards and waits. -/
def waitFor (w : Walk) (r : Request) : Decision × Walk :=
  (w.readFor r).wait r (w.ownedFor r).length (w.freeFor r) (w.comingFor r) (w.shortFor r)

/-- **What one turn of the walk can do**, with every guard on the way. -/
inductive Turned (w : Walk) (r : Request) : Decision → Walk → Prop
  /-- The host could never run it. -/
  | fails {reason : String} (hcap : w.failureFor r = some reason) :
    Turned w r (.fails r.jobId reason) w
  /-- The cards offered are enough. -/
  | fits (hcap : w.failureFor r = none) (hfree : (w.freeFor r).length = r.gpus) :
    Turned w r (.assigned r.jobId (w.freeFor r) []) ((w.readFor r).give (w.freeFor r))
  /-- It needs a card somebody else is on. -/
  | passed (hcap : w.failureFor r = none) (hfree : (w.freeFor r).length < r.gpus)
    (hours : w.oursFor r < r.gpus) :
    Turned w r (.steppedOver r.jobId (r.gpus - w.oursFor r)) (w.readFor r)
  /-- It starts on cards held for jobs ahead. -/
  | fills {cards : List Uuid} {heldFor : List JobId} (hcap : w.failureFor r = none)
    (hfree : (w.freeFor r).length < r.gpus) (hours : (r.gpus : Int) ≤ w.oursFor r)
    (hfills : r.fills = true) (hshort : w.shortFor r ≠ 0)
    (hfill : ((w.readFor r).fill r).1 = some (cards, heldFor)) :
    Turned w r (.assigned r.jobId cards heldFor) ((w.readFor r).give cards)
  /-- It waits. -/
  | waits (hcap : w.failureFor r = none) (hfree : (w.freeFor r).length < r.gpus)
    (hours : (r.gpus : Int) ≤ w.oursFor r)
    (hfill : r.fills = true → w.shortFor r ≠ 0 → ((w.readFor r).fill r).1 = none) :
    Turned w r (w.waitFor r).1 (w.waitFor r).2

/-- The pool a filler looked in is the one its turn has read. -/
theorem fill_readFor (hfree : (w.freeFor r).length < r.gpus) :
    ((w.readFor r).fill r).2 = (w.readFor r).pool :=
  fill_pool _ r fun hborrows =>
    ⟨_, readFor_sharedFree w r (asks_of_short w r hborrows hfree)⟩

theorem turned : Turned w r (w.turn r).1 (w.turn r).2 := by
  unfold turn
  split
  · next reason hcap => exact .fails hcap
  · next hcap =>
    by_cases hlength : (w.freeFor r).length = r.gpus
    · simp only [hlength, if_true]
      exact .fits hcap hlength
    have hfree : (w.freeFor r).length < r.gpus :=
      lt_of_le_of_ne (length_freeFor_le w r) hlength
    by_cases hours : w.oursFor r < r.gpus
    · simp only [hlength, hours, if_true, if_false]
      exact .passed hcap hfree hours
    have hpool := fill_readFor w r hfree
    by_cases hfills : r.fills = true ∧ w.shortFor r ≠ 0
    · simp only [hlength, hours, if_false, if_pos hfills]
      split
      · next cards heldFor pool hfill =>
        rw [hfill] at hpool
        obtain rfl : pool = (w.readFor r).pool := hpool
        exact .fills hcap hfree (not_lt.mp hours) hfills.1 hfills.2 (by rw [hfill])
      · next pool hfill =>
        rw [hfill] at hpool
        obtain rfl : pool = (w.readFor r).pool := hpool
        exact .waits hcap hfree (not_lt.mp hours) fun _ _ => by rw [hfill]
    · simp only [hlength, hours, if_false, if_neg hfills]
      exact .waits hcap hfree (not_lt.mp hours) fun h h' => absurd ⟨h, h'⟩ hfills

variable {w r} in
/-- A request short of a shared card somebody else is on is stepped over. -/
theorem turn_passed (hcap : w.failureFor r = none) (hfree : (w.freeFor r).length < r.gpus)
    (hours : w.oursFor r < r.gpus) :
    w.turn r = (.steppedOver r.jobId (r.gpus - w.oursFor r), w.readFor r) := by
  simp only [turn, hcap, hfree.ne, hours, if_true, if_false]

variable {w r} in
/-- A request that is short, and has nothing to fill, waits. -/
theorem turn_waits (hcap : w.failureFor r = none) (hfree : (w.freeFor r).length < r.gpus)
    (hours : (r.gpus : Int) ≤ w.oursFor r)
    (hfill : w.shortFor r ≠ 0 → ((w.readFor r).fill r).1 = none) : w.turn r = w.waitFor r := by
  have hpool := fill_readFor w r hfree
  by_cases hfills : r.fills = true ∧ w.shortFor r ≠ 0
  · have hnone : (w.readFor r).fill r = (none, (w.readFor r).pool) :=
      Prod.ext (hfill hfills.2) hpool
    simp only [turn, hcap, hfree.ne, not_lt.mpr hours, if_false, if_pos hfills, hnone, waitFor]
  · simp only [turn, hcap, hfree.ne, not_lt.mpr hours, if_false, if_neg hfills, waitFor]

/-! ## What a turn keeps -/

theorem spent_readFor : w.pool.Spent (w.readFor r).pool := by
  unfold readFor
  split
  · exact Pool.spent_borrowable w.pool
  · exact Pool.Spent.refl w.pool

@[simp] theorem give_held (cards : List Uuid) : (w.give cards).held = w.held := rfl

@[simp] theorem give_covered (cards : List Uuid) : (w.give cards).covered = w.covered := rfl

@[simp] theorem give_stuck (cards : List Uuid) : (w.give cards).stuck = w.stuck := rfl

@[simp] theorem give_pool (cards : List Uuid) : (w.give cards).pool = w.pool.take cards := rfl

@[simp] theorem waitFor_pool : (w.waitFor r).2.pool = (w.readFor r).pool := rfl

variable {w : Walk} {r : Request} {d : Decision} {after : Walk}

theorem Turned.spent (h : Turned w r d after) : w.pool.Spent after.pool := by
  cases h with
  | fails => exact Pool.Spent.refl w.pool
  | fits => exact (spent_readFor w r).trans (Pool.spent_take _ _)
  | passed => exact spent_readFor w r
  | fills => exact (spent_readFor w r).trans (Pool.spent_take _ _)
  | waits => exact spent_readFor w r

/-- Until the shared cards are read, a request is offered owned cards only. -/
theorem owned_of_unread {c : Uuid} (h : c ∈ w.freeFor r)
    (hunread : (w.readFor r).pool.sharedFree = none) : c ∈ w.pool.ownedFree := by
  cases hasks : w.asks r with
  | true => rw [readFor_sharedFree w r hasks] at hunread; cases hunread
  | false =>
    rw [freeFor, if_neg (by simp [hasks])] at h
    exact ((mem_unheld w).mp (List.mem_of_mem_take h)).1

/-- A decision is about the request it was made for. -/
theorem Turned.jobId (h : Turned w r d after) : d.jobId = r.jobId := by
  cases h <;> rfl

/-- **Every card a turn hands out was free, and is not on offer any more.** -/
theorem Turned.gives (h : Turned w r d after) (hpool : w.pool.Distinct) {c : Uuid}
    (hc : c ∈ d.gpus) :
    (c ∈ w.pool.ownedFree ∨ c ∈ w.pool.borrowable.1) ∧
      c ∉ after.pool.ownedFree ∧ c ∉ after.pool.borrowable.1 := by
  have hread : (w.readFor r).pool.Distinct := (spent_readFor w r).distinct hpool
  cases h with
  | fails => exact absurd hc List.not_mem_nil
  | fits =>
    have hoffer := (mem_freeFor w r hc).2
    refine ⟨hoffer.imp id And.right, Pool.not_mem_take hread hc fun hnone => ?_⟩
    rw [readFor_ownedFree]
    exact owned_of_unread hc hnone
  | passed => exact absurd hc List.not_mem_nil
  | fills hcap hfree _ _ _ hfill =>
    obtain ⟨hcards, -, -⟩ := fill_eq_some _ r hfill
    have hmem := hc
    rw [Decision.gpus, hcards] at hmem
    have hopen := ((mem_openFor _ r).mp (List.mem_of_mem_take hmem)).2
    rw [readFor_ownedFree, readFor_borrowable] at hopen
    refine ⟨hopen.imp id And.right, Pool.not_mem_take hread hc fun hnone => ?_⟩
    rw [readFor_ownedFree]
    rcases hopen with howned | ⟨hborrows, -⟩
    · exact howned
    · rw [readFor_sharedFree w r (asks_of_short w r hborrows hfree)] at hnone
      cases hnone
  | waits => exact absurd hc List.not_mem_nil

/-- An owned card leaves the pool exactly when a turn hands it out. -/
theorem Turned.ownedFree (h : Turned w r d after) {c : Uuid} :
    c ∈ after.pool.ownedFree ↔ c ∈ w.pool.ownedFree ∧ c ∉ d.gpus := by
  cases h with
  | fails => simp [Decision.gpus]
  | fits => simp [Decision.gpus]
  | passed => simp [Decision.gpus]
  | fills => simp [Decision.gpus]
  | waits => simp [Decision.gpus, waitFor, wait, hold]

/-- A shared card that a turn does not hand out stays on offer. -/
theorem Turned.sharedFree (h : Turned w r d after) {c : Uuid} (hc : c ∈ w.pool.borrowable.1)
    (hout : c ∉ d.gpus) : c ∈ after.pool.borrowable.1 := by
  have htake : ∀ cards, c ∉ cards → c ∈ ((w.readFor r).give cards).pool.borrowable.1 := by
    intro cards hcards
    rw [give_pool, Pool.take_borrowable]
    split <;> simp [hc, hcards]
  cases h with
  | fails => exact hc
  | fits => exact htake _ hout
  | passed => rwa [readFor_borrowable]
  | fills => exact htake _ hout
  | waits => rwa [waitFor_pool, readFor_borrowable]

theorem mem_comingFor {c : Uuid} (h : c ∈ w.comingFor r) :
    c ∈ w.pool.coming ∧ w.held c = none ∧ (r.borrows = true ∨ c ∉ w.pool.shared) := by
  have hmem := List.mem_filter.mp (mem_sortedBy.mp (List.mem_of_mem_take h))
  have hunheld := (mem_unheld w).mp hmem.1
  exact ⟨hunheld.1, hunheld.2, by simpa using hmem.2⟩

/-- The job a waiting turn holds its cards for, over what is held already. -/
theorem waitFor_held {c : Uuid} :
    (w.waitFor r).2.held c
      = if c ∈ w.freeFor r ++ w.comingFor r then some r.jobId else w.held c := by
  simp only [waitFor, wait, hold, readFor_held]

/-- **What is held stays held**: no turn takes a card over from the job holding it. -/
theorem Turned.held (h : Turned w r d after) {c : Uuid} {job : JobId} (hc : w.held c = some job) :
    after.held c = some job := by
  cases h with
  | fails => exact hc
  | fits => rw [give_held, readFor_held]; exact hc
  | passed => rw [readFor_held]; exact hc
  | fills => rw [give_held, readFor_held]; exact hc
  | waits =>
    have hfree : c ∉ w.freeFor r := fun hmem => by
      rw [(mem_freeFor w r hmem).1] at hc; cases hc
    have hcoming : c ∉ w.comingFor r := fun hmem => by
      rw [(mem_comingFor hmem).2.1] at hc; cases hc
    rw [waitFor_held, if_neg (by simp [hfree, hcoming])]
    exact hc

/-- A card is open to a filler unless it is held for a covered job. -/
theorem openToIt_iff {c : Uuid} :
    w.openToIt c = true ↔ ∀ job, w.held c = some job → job ∉ w.covered := by
  unfold openToIt
  cases w.held c <;> simp

section Assigned
variable {jobId : JobId} {cards : List Uuid} {heldFor : List JobId}
  (h : Turned w r (.assigned jobId cards heldFor) after)
include h

/-- A job that is started gets exactly the cards it asked for. -/
theorem Turned.exact (hpool : w.pool.Distinct) : cards.length = r.gpus ∧ cards.Nodup := by
  cases h with
  | fits _ hlength => exact ⟨hlength, nodup_freeFor w r hpool⟩
  | fills _ _ _ _ _ hfill =>
    obtain ⟨hcards, hlength, -⟩ := fill_eq_some _ r hfill
    refine ⟨hlength, ?_⟩
    rw [hcards]
    exact (List.take_sublist _ _).nodup
      (nodup_openFor _ r ((spent_readFor w r).distinct hpool))

/-- A job that may not borrow gets owned cards. -/
theorem Turned.ownedOnly (hborrows : r.borrows = false) {c : Uuid} (hc : c ∈ cards) :
    c ∈ w.pool.ownedFree := by
  cases h with
  | fits => exact (mem_freeFor w r hc).2.resolve_right (by simp [hborrows])
  | fills _ _ _ _ _ hfill =>
    rw [(fill_eq_some _ r hfill).1] at hc
    have hopen := ((mem_openFor _ r).mp (List.mem_of_mem_take hc)).2
    rw [readFor_ownedFree] at hopen
    exact hopen.resolve_right (by simp [hborrows])

/-- A job that does not fill gets cards nobody ahead holds. -/
theorem Turned.unheldOnly (hfills : r.fills = false) {c : Uuid} (hc : c ∈ cards) :
    w.held c = none := by
  cases h with
  | fits => exact (mem_freeFor w r hc).1
  | fills _ _ _ hyes => rw [hfills] at hyes; cases hyes

/-- No card held for a covered job is handed out. -/
theorem Turned.open {c : Uuid} (hc : c ∈ cards) : w.openToIt c = true := by
  cases h with
  | fits => exact openToIt_iff.mpr fun job hheld => by rw [(mem_freeFor w r hc).1] at hheld; cases hheld
  | fills _ _ _ _ _ hfill =>
    rw [(fill_eq_some _ r hfill).1] at hc
    have hopen := ((mem_openFor _ r).mp (List.mem_of_mem_take hc)).1
    simpa only [openToIt, readFor_held, readFor_covered] using hopen

/-- **A borrower's owned cards come first**: it is given a card the host does not own only with every
free owned card nobody holds, and, when it is started on held cards, every one open to it. -/
theorem Turned.ownedFirst {c c' : Uuid} (hc : c ∈ cards) (hborrowed : c ∉ w.pool.ownedFree)
    (hc' : c' ∈ w.pool.ownedFree)
    (hopen : w.held c' = none ∨ (heldFor ≠ [] ∧ w.openToIt c' = true)) : c' ∈ cards := by
  cases h with
  | fits =>
    exact ownedFree_of_mem_freeFor w r hc hborrowed hc' (hopen.resolve_right fun h => h.1 rfl)
  | fills _ _ _ _ _ hfill =>
    have hopen' : (w.readFor r).openToIt c' = true := by
      simp only [openToIt, readFor_held, readFor_covered]
      rcases hopen with hnone | ⟨-, h'⟩
      · simp [hnone]
      · exact h'
    exact ownedFree_of_mem_fill _ r hfill hc (by rwa [readFor_ownedFree])
      (by rwa [readFor_ownedFree]) hopen'

end Assigned

end Walk

/-- The job is covered: it waits only for stops in flight, or for stops its turn asked for. -/
def Decision.covers (d : Decision) (job : JobId) : Prop :=
  match d with
  | .holds jobId _ _ gap preempts => jobId = job ∧ (gap = 0 ∨ preempts ≠ [])
  | .assigned .. | .steppedOver .. | .fails .. => False

namespace Walk

variable {w : Walk} {r : Request} {d : Decision} {after : Walk}

/-- A turn covers a job exactly when its decision says so. -/
theorem Turned.covered (h : Turned w r d after) {job : JobId} :
    job ∈ after.covered ↔ job ∈ w.covered ∨ d.covers job := by
  cases h with
  | fails => simp [Decision.covers]
  | fits => simp [Decision.covers]
  | passed => simp [Decision.covers]
  | fills => simp [Decision.covers]
  | waits =>
    simp only [waitFor, wait, Decision.covers, hold, readFor_covered, ne_eq, List.map_eq_nil_iff]
    split
    · next hcovers => simp only [Finset.mem_insert, hcovers, and_true]; tauto
    · next hcovers => simp only [hcovers, and_false, or_false]

/-- Whoever comes to hold a card is the job of a decision to hold. -/
theorem Turned.holder (h : Turned w r d after) {c : Uuid} {job : JobId}
    (hc : after.held c = some job) :
    w.held c = some job ∨
      ∃ owned shared gap preempts, d = .holds job owned shared gap preempts := by
  cases h with
  | fails => exact .inl hc
  | fits => rw [give_held, readFor_held] at hc; exact .inl hc
  | passed => rw [readFor_held] at hc; exact .inl hc
  | fills => rw [give_held, readFor_held] at hc; exact .inl hc
  | waits =>
    rw [waitFor_held] at hc
    split at hc
    · obtain rfl := Option.some.inj hc
      exact .inr ⟨_, _, _, _, rfl⟩
    · exact .inl hc

end Walk

/-! ## Along the queue -/

theorem planFrom_cons (w : Walk) (r : Request) (rs : List Request) :
    planFrom w (r :: rs)
      = ((w.turn r).1 :: (planFrom (w.turn r).2 rs).1, (planFrom (w.turn r).2 rs).2) :=
  rfl

theorem planFrom_append (w : Walk) (rs ss : List Request) :
    planFrom w (rs ++ ss)
      = ((planFrom w rs).1 ++ (planFrom (planFrom w rs).2 ss).1,
          (planFrom (planFrom w rs).2 ss).2) := by
  induction rs generalizing w with
  | nil => rfl
  | cons r rs ih => simp only [List.cons_append, planFrom, ih]

@[simp] theorem length_planFrom (w : Walk) (rs : List Request) :
    (planFrom w rs).1.length = rs.length := by
  induction rs generalizing w with
  | nil => rfl
  | cons r rs ih => simp only [planFrom, List.length_cons, ih]

/-- The walk when it has passed the requests of `before`. -/
def walkTo (pool : Pool) (before : List Request) : Walk :=
  (planFrom (Walk.start pool) before).2

/-- A pass decides a request as the walk that has passed the ones before it does. -/
theorem plan_split (pool : Pool) (before : List Request) (r : Request) (rest : List Request) :
    plan (before ++ r :: rest) pool
      = plan before pool ++ ((walkTo pool before).turn r).1
          :: (planFrom ((walkTo pool before).turn r).2 rest).1 := by
  simp only [plan, planFrom_append, planFrom, walkTo]

theorem plan_at (pool : Pool) (before : List Request) (r : Request) (rest : List Request) :
    (plan (before ++ r :: rest) pool)[before.length]? = some ((walkTo pool before).turn r).1 := by
  rw [plan_split, List.getElem?_append_right (by simp [plan])]
  simp [plan]

theorem walkTo_snoc (pool : Pool) (before : List Request) (r : Request) :
    walkTo pool (before ++ [r]) = ((walkTo pool before).turn r).2 := by
  simp only [walkTo, planFrom_append, planFrom]

theorem plan_snoc (pool : Pool) (before : List Request) (r : Request) :
    plan (before ++ [r]) pool = plan before pool ++ [((walkTo pool before).turn r).1] := by
  rw [plan_split]
  rfl

section Run
variable (pool : Pool) (before : List Request)

/-- The pool a walk has is the one it began with, spent. -/
theorem walkTo_spent : pool.Spent (walkTo pool before).pool := by
  induction before using List.reverseRecOn with
  | nil => exact Pool.Spent.refl pool
  | append_singleton before r ih =>
    rw [walkTo_snoc]
    exact ih.trans (Walk.turned _ r).spent

/-- The owned cards still free are those no decision has handed out. -/
theorem walkTo_ownedFree {c : Uuid} :
    c ∈ (walkTo pool before).pool.ownedFree
      ↔ c ∈ pool.ownedFree ∧ ∀ d ∈ plan before pool, c ∉ d.gpus := by
  induction before using List.reverseRecOn with
  | nil => simp [walkTo, planFrom, Walk.start, plan]
  | append_singleton before r ih =>
    rw [walkTo_snoc, (Walk.turned _ r).ownedFree, ih, plan_snoc, List.forall_mem_append,
      List.forall_mem_singleton, and_assoc]

/-- **The covered jobs are read off the decisions.** -/
theorem covered_iff {job : JobId} :
    job ∈ (walkTo pool before).covered ↔ ∃ d ∈ plan before pool, d.covers job := by
  induction before using List.reverseRecOn with
  | nil => simp [walkTo, planFrom, Walk.start, plan]
  | append_singleton before r ih =>
    rw [walkTo_snoc, (Walk.turned _ r).covered, ih, plan_snoc]
    simp only [List.mem_append, List.mem_singleton, or_and_right, exists_or, exists_eq_left]

/-- Cards are held for jobs whose decision is to hold. -/
theorem held_isHolder {c : Uuid} {job : JobId} (h : (walkTo pool before).held c = some job) :
    ∃ owned shared gap preempts, .holds job owned shared gap preempts ∈ plan before pool := by
  induction before using List.reverseRecOn with
  | nil => simp [walkTo, planFrom, Walk.start] at h
  | append_singleton before r ih =>
    rw [walkTo_snoc] at h
    rw [plan_snoc]
    rcases (Walk.turned _ r).holder h with hbefore | ⟨owned, shared, gap, preempts, hd⟩
    · obtain ⟨owned, shared, gap, preempts, hmem⟩ := ih hbefore
      exact ⟨owned, shared, gap, preempts, List.mem_append_left _ hmem⟩
    · refine ⟨owned, shared, gap, preempts, List.mem_append_right _ ?_⟩
      rw [hd]
      exact List.mem_singleton_self _

/-- **The shared cards are read at most once a pass.** -/
theorem walkTo_calls : (walkTo pool before).pool.calls ≤ pool.calls + 1 := by
  have hafter := Pool.borrowable_calls (walkTo pool before).pool
  rw [(walkTo_spent pool before).calls, Pool.borrowable_calls pool] at hafter
  split at hafter <;> omega

variable {pool}

/-- **No card goes to two jobs.** -/
theorem plan_disjoint (hpool : pool.Distinct) :
    (plan before pool).Pairwise (fun d e => d.gpus.Disjoint e.gpus) ∧
      ∀ d ∈ plan before pool, ∀ c ∈ d.gpus, c ∉ (walkTo pool before).pool.ownedFree ∧
        c ∉ (walkTo pool before).pool.borrowable.1 := by
  induction before using List.reverseRecOn with
  | nil => simp [plan, planFrom]
  | append_singleton before r ih =>
    obtain ⟨hpairs, hgone⟩ := ih
    have hdistinct := (walkTo_spent pool before).distinct hpool
    have hturned := Walk.turned (walkTo pool before) r
    rw [plan_snoc, walkTo_snoc]
    refine ⟨List.pairwise_append.mpr ⟨hpairs, List.pairwise_singleton _ _, ?_⟩, ?_⟩
    · intro d hd e he c hc hce
      rw [List.mem_singleton.mp he] at hce
      rcases (hturned.gives hdistinct hce).1 with hfree | hfree
      · exact (hgone d hd c hc).1 hfree
      · exact (hgone d hd c hc).2 hfree
    · intro d hd c hc
      rcases List.mem_append.mp hd with hbefore | hlast
      · have hout := hgone d hbefore c hc
        exact ⟨fun h => hout.1 (hturned.spent.owned.subset h),
          fun h => hout.2 (hturned.spent.shared.subset h)⟩
      · rw [List.mem_singleton.mp hlast] at hc
        exact (hturned.gives hdistinct hc).2

/-- The cards handed out come from the pool. -/
theorem plan_gives (hpool : pool.Distinct) :
    ∀ d ∈ plan before pool, ∀ c ∈ d.gpus, c ∈ pool.ownedFree ∨ c ∈ pool.borrowable.1 := by
  induction before using List.reverseRecOn with
  | nil => simp [plan, planFrom]
  | append_singleton before r ih =>
    intro d hd c hc
    rw [plan_snoc] at hd
    rcases List.mem_append.mp hd with hbefore | hlast
    · exact ih d hbefore c hc
    · rw [List.mem_singleton.mp hlast] at hc
      have hspent := walkTo_spent pool before
      rcases ((Walk.turned _ r).gives (hspent.distinct hpool) hc).1 with hfree | hfree
      · exact .inl (hspent.owned.subset hfree)
      · exact .inr (hspent.shared.subset hfree)

/-- The decisions are about the requests, in order. -/
theorem plan_jobIds (pool : Pool) :
    (plan before pool).map Decision.jobId = before.map Request.jobId := by
  induction before using List.reverseRecOn with
  | nil => rfl
  | append_singleton before r ih =>
    rw [plan_snoc, List.map_append, List.map_append, ih]
    simp only [List.map_cons, List.map_nil, (Walk.turned _ r).jobId]

end Run

/-! ## One pass -/

/-- **One pass hands out every card at most once, and only to a job allowed on it.** -/
theorem plan_hands_out (requests : List Request) {pool : Pool} (hpool : pool.Distinct) :
    (∀ before r rest jobId cards heldFor, requests = before ++ r :: rest →
      (plan requests pool)[before.length]? = some (.assigned jobId cards heldFor) →
      (cards.length = r.gpus ∧ cards.Nodup ∧
        ∀ c ∈ cards, c ∈ pool.ownedFree ∨ c ∈ pool.borrowable.1) ∧
      (r.borrows = false → ∀ c ∈ cards, c ∈ pool.ownedFree) ∧
      (∀ c ∈ cards, c ∉ pool.ownedFree →
        ∀ c' ∈ pool.ownedFree, (∀ d ∈ plan before pool, c' ∉ d.gpus) →
          ((walkTo pool before).held c' = none ∨ (heldFor ≠ [] ∧
            ∀ job, (walkTo pool before).held c' = some job →
              ∀ d ∈ plan before pool, ¬ d.covers job)) → c' ∈ cards) ∧
      (r.fills = false → ∀ c ∈ cards, (walkTo pool before).held c = none) ∧
      (∀ c ∈ cards, ∀ job, (walkTo pool before).held c = some job →
        ∀ d ∈ plan before pool, ¬ d.covers job)) ∧
    (plan requests pool).Pairwise (fun d e => d.gpus.Disjoint e.gpus) ∧
    (planFrom (Walk.start pool) requests).2.pool.calls ≤ pool.calls + 1 := by
  refine ⟨?_, (plan_disjoint requests hpool).1, walkTo_calls pool requests⟩
  rintro before r rest jobId cards heldFor rfl hplan
  rw [plan_at] at hplan
  have hturned := Walk.turned (walkTo pool before) r
  rw [Option.some.inj hplan] at hturned
  have hspent := walkTo_spent pool before
  have hdistinct := hspent.distinct hpool
  obtain ⟨hlength, hnodup⟩ := hturned.exact hdistinct
  have hfree : ∀ c ∈ cards, c ∈ pool.ownedFree ∨ c ∈ pool.borrowable.1 := fun c hc =>
    (hturned.gives hdistinct hc).1.imp (fun h => hspent.owned.subset h)
      (fun h => hspent.shared.subset h)
  have hcovers : ∀ c, (walkTo pool before).openToIt c = true ↔
      ∀ job, (walkTo pool before).held c = some job → ∀ d ∈ plan before pool, ¬ d.covers job := by
    intro c
    simp only [Walk.openToIt_iff, covered_iff, not_exists, not_and]
  refine ⟨⟨hlength, hnodup, hfree⟩, fun hborrows c hc => hspent.owned.subset
    (hturned.ownedOnly hborrows hc), ?_, fun hfills c hc => hturned.unheldOnly hfills hc,
    fun c hc => (hcovers c).mp (hturned.open hc)⟩
  intro c hc hborrowed c' hc' hleft hopen
  refine hturned.ownedFirst hc (fun h => hborrowed (hspent.owned.subset h))
    ((walkTo_ownedFree pool before).mpr ⟨hc', hleft⟩) ?_
  exact hopen.imp id fun h => ⟨h.1, (hcovers c').mpr h.2⟩

/-- A wide job waits on one owned card, and a filler that may borrow comes behind it. -/
def waiterAndFiller : List Request :=
  [{ jobId := "h", gpus := 2, borrows := false, priority := 10 },
    { jobId := "f", gpus := 1, borrows := true, fills := true }]

/-- One of two owned cards free, and one shared card nobody is on. -/
def oneOfEach : Pool where
  ownedFree := ["a"]
  ownedPresent := 2
  sharedVisible := 1
  sample := some fun _ => (["s"], 0)
  shared := {"s"}

theorem oneOfEach_distinct : oneOfEach.Distinct :=
  ⟨by decide, by decide, by simp [List.Disjoint, oneOfEach, Pool.borrowable]⟩

theorem plan_hands_out_waiterAndFiller :
    plan waiterAndFiller oneOfEach = [.holds "h" 1 0 1 [], .assigned "f" ["s"] []] ∧
      (plan waiterAndFiller oneOfEach).Pairwise (fun d e => d.gpus.Disjoint e.gpus) ∧
      (planFrom (Walk.start oneOfEach) waiterAndFiller).2.pool.calls ≤ 1 :=
  ⟨by decide, (plan_hands_out waiterAndFiller oneOfEach_distinct).2⟩

/-- **A filler that fits on cards nobody holds borrows past an owned card it could have filled**: the
owned card is free, and held for a job that is not covered, so it is open to the filler, which is
given the shared one. -/
theorem filler_borrows_past_open_card :
    ¬ ∀ (requests : List Request) (pool : Pool), pool.Distinct →
      ∀ before r rest jobId cards heldFor, requests = before ++ r :: rest →
        (plan requests pool)[before.length]? = some (.assigned jobId cards heldFor) →
        ∀ c ∈ cards, c ∉ pool.ownedFree →
          ∀ c' ∈ (walkTo pool before).pool.ownedFree,
            ((walkTo pool before).held c' = none ∨
              (r.fills = true ∧ (walkTo pool before).openToIt c' = true)) → c' ∈ cards := by
  intro h
  have ha := h waiterAndFiller oneOfEach oneOfEach_distinct [waiterAndFiller[0]] waiterAndFiller[1] []
    "f" ["s"] [] rfl (by decide) "s" (by decide) (by decide) "a" (by decide) (by decide)
  exact absurd ha (by decide)

end Gpuc.Host
