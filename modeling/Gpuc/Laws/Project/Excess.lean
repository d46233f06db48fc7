import Mathlib.Algebra.GroupWithZero.Nat
import Gpuc.Basis.Counting
import Gpuc.Laws.Project.Replay

/-!
# Cards a stop does not free

A running job that may be stopped is expected to hand its cards back, and need not: another job may
have been projected onto one of them, or the counts it came with may be wrong. `excess` counts what
the live jobs list beyond the cards they really hold. No step of the replay makes it larger
(`excess_launched`, `excess_stop`, `excess_tick`), and a stop that does not free all that the job was
counted for makes it smaller (`Frees` fails in `excess_stop`). The jobs a launch adds bring none: they
are counted as they are and hold what they list.
-/

set_option autoImplicit false

namespace Gpuc.Host

open Gpuc.Basis

/-- The job's counts are those of the cards it lists, no card twice. -/
def Stoppable.Exact (entry : Stoppable) (shared : Uuid → Bool) : Prop :=
  entry.job.gpus.Nodup ∧ entry.job.owned = (entry.job.gpus.countP fun c => !shared c) ∧
    entry.job.borrowed = entry.job.gpus.countP shared

instance (entry : Stoppable) (shared : Uuid → Bool) : Decidable (entry.Exact shared) :=
  inferInstanceAs (Decidable (_ ∧ _ ∧ _))

/-- The job has not ended by the time given. -/
def Stoppable.live (entry : Stoppable) (clock : Seconds) : Bool :=
  match entry.ends with
  | none => true
  | some ends => clock < ends

/-- What a job lists, and one more if it is not counted exactly. -/
def Stoppable.lists (entry : Stoppable) (shared : Uuid → Bool) : Nat :=
  entry.job.gpus.length + if entry.Exact shared then 0 else 1

/-- Some job of the list holds the card: lists it, and ends when the card comes free. -/
def heldBy (entries : List Stoppable) (card : Card) : Bool :=
  entries.any fun entry => card.uuid ∈ entry.job.gpus ∧ card.releaseS = entry.ends

/-- The cards of the host that a list of jobs holds. -/
def cardsHeld (cards : List Card) (entries : List Stoppable) : Nat :=
  cards.countP (heldBy entries)

/-- **What the jobs list beyond the cards they hold.** -/
def excess (shared : Uuid → Bool) (cards : List Card) (entries : List Stoppable) : Nat :=
  (entries.map fun entry => entry.lists shared).sum - cardsHeld cards entries

section Count
variable {cards : List Card} (huuids : (cards.map Card.uuid).Nodup)
include huuids

/-- No more cards have a name in a list than the list has names. -/
theorem countP_uuid_le (gpus : List Uuid) :
    (cards.countP fun card => card.uuid ∈ gpus) ≤ gpus.length := by
  have hsub : (cards.map Card.uuid).filter (fun c => c ∈ gpus) ⊆ gpus := fun c hc => by
    simpa using (List.mem_filter.mp hc).2
  have hle := (List.subperm_of_subset (huuids.filter _) hsub).length_le
  rwa [← List.countP_eq_length_filter, List.countP_map] at hle

/-- As many, when the names are distinct and all of cards. -/
theorem countP_uuid_eq {gpus : List Uuid} (hnodup : gpus.Nodup)
    (hcards : ∀ c ∈ gpus, c ∈ cards.map Card.uuid) :
    (cards.countP fun card => card.uuid ∈ gpus) = gpus.length := by
  have hperm : ((cards.map Card.uuid).filter fun c => c ∈ gpus).Perm gpus :=
    (List.perm_ext_iff_of_nodup (huuids.filter _) hnodup).mpr fun c => by
      rw [List.mem_filter]
      simpa using hcards c
  have hlength := hperm.length_eq
  rwa [← List.countP_eq_length_filter, List.countP_map] at hlength

theorem cardsHeld_cons_le (entry : Stoppable) (entries : List Stoppable) :
    cardsHeld cards (entry :: entries) ≤ cardsHeld cards entries + entry.job.gpus.length := by
  refine (countP_le_add (q := fun card => decide (card.uuid ∈ entry.job.gpus))
    fun card _ hcard => ?_).trans
      (Nat.add_le_add_left (countP_uuid_le huuids entry.job.gpus) _)
  rw [heldBy, List.any_cons, Bool.or_eq_true, decide_eq_true_iff] at hcard
  exact hcard.symm.imp id fun h => by simpa using h.1

/-- A list of jobs holds no more cards than it lists. -/
theorem cardsHeld_le (shared : Uuid → Bool) (entries : List Stoppable) :
    cardsHeld cards entries ≤ (entries.map fun entry => entry.lists shared).sum := by
  induction entries with
  | nil => simp [cardsHeld, heldBy]
  | cons entry entries ih =>
    have hcons := cardsHeld_cons_le huuids entry entries
    rw [List.map_cons, List.sum_cons, Stoppable.lists]
    omega

/-- Forgetting a job brings no excess. -/
theorem excess_le_cons (shared : Uuid → Bool) (entry : Stoppable) (entries : List Stoppable) :
    excess shared cards entries ≤ excess shared cards (entry :: entries) := by
  have hcons := cardsHeld_cons_le huuids entry entries
  have hle := cardsHeld_le huuids shared entries
  rw [excess, excess, List.map_cons, List.sum_cons, Stoppable.lists]
  omega

omit huuids in
theorem excess_perm (shared : Uuid → Bool) {entries entries' : List Stoppable}
    (h : entries.Perm entries') : excess shared cards entries = excess shared cards entries' := by
  have hheld : heldBy entries = heldBy entries' := by
    funext card
    exact h.any_eq
  rw [excess, excess, cardsHeld, cardsHeld, hheld, (h.map _).sum_nat]

theorem excess_sublist (shared : Uuid → Bool) {entries entries' : List Stoppable}
    (h : entries'.Sublist entries) : excess shared cards entries' ≤ excess shared cards entries := by
  obtain ⟨dropped, hperm⟩ := h.exists_perm_append
  rw [excess_perm shared (hperm.trans List.perm_append_comm)]
  clear hperm h
  induction dropped with
  | nil => exact le_rfl
  | cons entry dropped ih => exact ih.trans (excess_le_cons huuids shared entry _)

end Count

/-- A free card is held by no job that has not ended. -/
theorem heldBy_of_free {entries : List Stoppable} {clock : Seconds}
    (hlive : ∀ entry ∈ entries, entry.live clock = true) {card : Card}
    (hfree : card.freeBy clock = true) : heldBy entries card = false := by
  rw [heldBy, List.any_eq_false]
  intro entry hentry hholds
  have hends := hlive entry hentry
  obtain ⟨-, heq⟩ := of_decide_eq_true hholds
  rw [Card.freeBy, heq] at hfree
  rw [Stoppable.live] at hends
  cases hrelease : entry.ends with
  | none => rw [hrelease] at hfree; exact Bool.false_ne_true hfree
  | some release =>
    rw [hrelease] at hfree hends
    exact absurd (of_decide_eq_true hends) (not_lt.mpr (of_decide_eq_true hfree))

namespace Replay

/-- The excess of the jobs that have not ended. -/
def excess (s : Replay) : Nat := Host.excess s.isShared s.cards s.current.values

theorem current_eq (s : Replay) : s.current = s.stoppable.filter fun _ entry => entry.live s.clock :=
  rfl

theorem current_live {s : Replay} {entry : Stoppable} (h : entry ∈ s.current.values) :
    entry.live s.clock = true := by
  obtain ⟨jobId, hget⟩ := Dict.mem_values.mp h
  rw [current_eq, Dict.get?_filter, Option.filter_eq_some_iff] at hget
  exact hget.2

theorem IsFree.freeBy {s : Replay} (huuids : (s.cards.map Card.uuid).Nodup) {card : Card}
    (hcard : card ∈ s.cards) (h : s.IsFree card.uuid) : card.freeBy s.clock = true := by
  obtain ⟨card', hcard', heq, hfree⟩ := h
  rwa [← List.inj_on_of_nodup_map huuids hcard' hcard heq]

/-- Planning a round forgets jobs that have ended. -/
theorem excess_planned (s : Replay) (e : Elsewhere) : (s.planned e).excess = s.excess := by
  have hcurrent : (s.planned e).current = s.current := by
    show s.current.filter (fun _ entry => entry.live s.clock) = s.current
    simp only [current_eq, Dict.filter, List.filter_filter, Bool.and_self]
  show Host.excess s.isShared s.cards _ = _
  rw [hcurrent]
  rfl

/-- Moving the clock on forgets jobs that have ended. -/
theorem excess_tick {s : Replay} (huuids : (s.cards.map Card.uuid).Nodup) {next : Seconds}
    (h : s.clock ≤ next) : ({ s with clock := next } : Replay).excess ≤ s.excess := by
  refine excess_sublist huuids s.isShared (List.Sublist.map Prod.snd ?_)
  refine List.monotone_filter_right _ fun entry hlive => ?_
  show entry.2.live s.clock = true
  replace hlive : entry.2.live next = true := hlive
  cases hends : entry.2.ends with
  | none => rw [Stoppable.live, hends]
  | some ends =>
    rw [Stoppable.live, hends] at hlive ⊢
    exact decide_eq_true (h.trans_lt (of_decide_eq_true hlive))

section Start
variable {s : Replay} {r : Request} {gpus : List Uuid}

/-- A job that starts is counted as it is. -/
theorem started_exact (hnodup : gpus.Nodup) : (s.started r gpus).Exact s.isShared := by
  have hle := List.countP_le_length (p := s.isShared) (l := gpus)
  have hsplit := List.length_eq_countP_add_countP s.isShared (l := gpus)
  refine ⟨hnodup, ?_, rfl⟩
  show gpus.length - gpus.countP s.isShared = gpus.countP fun c => !s.isShared c
  have hnot : gpus.countP (fun c => !s.isShared c)
      = gpus.countP (fun c => decide ¬ s.isShared c = true) :=
    List.countP_congr fun c _ => by simp
  omega

/-- **A launch brings no excess.** -/
theorem excess_start {jobs : List Request} (h : Sound jobs s) (hr : r ∈ s.pending)
    (hnodup : gpus.Nodup) (hfree : ∀ c ∈ gpus, s.IsFree c) :
    (s.start r gpus).excess ≤ s.excess := by
  have hlive : ∀ entry ∈ s.current.values, entry.live s.clock = true := fun _ => current_live
  have hunheld : ∀ card ∈ s.cards, card.uuid ∈ gpus → heldBy s.current.values card = false :=
    fun card hcard hc => heldBy_of_free hlive ((hfree _ hc).freeBy h.uuids hcard)
  have hcards : ∀ entries, cardsHeld (s.start r gpus).cards entries
      = s.cards.countP fun card => heldBy entries
          (if card.uuid ∈ gpus then { card with releaseS := s.doneAt r } else card) := fun entries =>
    List.countP_map
  -- what was held still is
  have hkept : ∀ card ∈ s.cards, ∀ entries, s.current.values ⊆ entries →
      heldBy s.current.values card = true →
      heldBy entries (if card.uuid ∈ gpus then { card with releaseS := s.doneAt r } else card)
        = true := by
    intro card hcard entries hsub hheld
    have hc : card.uuid ∉ gpus := fun hc => by
      rw [hunheld card hcard hc] at hheld
      cases hheld
    rw [if_neg hc]
    obtain ⟨entry, hentry, hholds⟩ := List.any_eq_true.mp hheld
    exact List.any_eq_true.mpr ⟨entry, hsub hentry, hholds⟩
  have hsame : ∀ stoppable : Dict JobId Stoppable,
      (stoppable.filter fun _ entry => entry.live s.clock).values = s.current.values →
      (s.start r gpus).stoppable = stoppable → (s.start r gpus).excess ≤ s.excess := by
    intro stoppable hvalues hstoppable
    rw [excess, current_eq, hstoppable, start_clock, hvalues, start_isShared, excess]
    refine Nat.sub_le_sub_left ?_ _
    rw [hcards]
    exact List.countP_mono_left fun card hcard hheld =>
      hkept card hcard _ (List.Subset.refl _) hheld
  by_cases hfills : r.fills ∧ gpus ≠ []
  · have hfresh : r.jobId ∉ s.stoppable.keys := Dict.get?_eq_none.mp (h.apart r hr)
    have hstoppable : (s.start r gpus).stoppable
        = s.stoppable.set r.jobId (s.started r gpus) := by
      rw [start_stoppable, if_pos hfills]
    have hvalues := Dict.values_filter_set hfresh (s.started r gpus)
      fun _ entry => entry.live s.clock
    by_cases hends : (s.started r gpus).live s.clock = true
    · rw [if_pos hends, ← current_eq] at hvalues
      have hexact : (s.started r gpus).lists s.isShared = gpus.length := by
        rw [Stoppable.lists, if_pos (started_exact hnodup)]
        rfl
      have hmore : cardsHeld s.cards s.current.values + gpus.length
          ≤ cardsHeld (s.start r gpus).cards (s.current.values ++ [s.started r gpus]) := by
        rw [hcards, ← countP_uuid_eq h.uuids hnodup fun c hc => (hfree c hc).mem_uuids]
        refine add_countP_le
          (fun card hcard hheld => hkept card hcard _ (List.subset_append_left _ _) hheld)
          (fun card _ hc => ?_) fun card hcard hheld => ?_
        · have hc' : card.uuid ∈ gpus := of_decide_eq_true hc
          rw [if_pos hc']
          refine List.any_eq_true.mpr ⟨s.started r gpus, by simp, decide_eq_true ⟨hc', rfl⟩⟩
        · by_contra hc
          have hc' : card.uuid ∈ gpus := by simpa using hc
          rw [hunheld card hcard hc'] at hheld
          cases hheld
      rw [excess, current_eq, hstoppable, start_clock, hvalues, start_isShared, excess, Host.excess,
        Host.excess, List.map_append, List.sum_append, List.map_singleton, List.sum_singleton,
        hexact]
      omega
    · rw [if_neg hends, List.append_nil, ← current_eq] at hvalues
      exact hsame _ hvalues hstoppable
  · refine hsame s.stoppable ?_ ?_
    · rw [← current_eq]
    · rw [start_stoppable, if_neg hfills]

end Start

theorem excess_launched {jobs : List Request} {s : Replay} (h : Sound jobs s) (e : Elsewhere) :
    (s.launched e).excess ≤ s.excess := by
  rw [launched_eq h e, ← excess_planned s e]
  refine ((launchable h e).induct
    (motive := fun t => Sound jobs t ∧ t.excess ≤ (s.planned e).excess)
    ⟨h.planned e, le_rfl⟩ ?_).2
  intro t r gpus ht hr hnodup hfree
  exact ⟨ht.1.start hr fun c hc => (hfree c hc).mem_uuids,
    (excess_start ht.1 hr hnodup hfree).trans ht.2⟩

/-! ## Stopping jobs -/

/-- The free cards a job that may (or may not) borrow can use. -/
def usable (s : Replay) (borrowing : Bool) : Nat :=
  s.cards.countP fun card => card.freeBy s.clock && (borrowing || !card.shared)

theorem isShared_uuid {s : Replay} (huuids : (s.cards.map Card.uuid).Nodup) {card : Card}
    (hcard : card ∈ s.cards) : s.isShared card.uuid = card.shared := by
  rw [Bool.eq_iff_iff, isShared, List.any_eq_true]
  constructor
  · rintro ⟨card', hcard', hmatch⟩
    obtain ⟨heq, hshared⟩ := of_decide_eq_true hmatch
    rwa [← List.inj_on_of_nodup_map huuids hcard' hcard heq]
  · exact fun hshared => ⟨card, hcard, decide_eq_true ⟨rfl, hshared⟩⟩

/-- A job counted exactly frees the cards it lists that the waiting job may use. -/
theorem frees_of_exact {entry : Stoppable} {shared : Uuid → Bool} (h : entry.Exact shared)
    (borrowing : Bool) :
    entry.job.frees borrowing = (entry.job.gpus.filter fun c => borrowing || !shared c).length := by
  obtain ⟨-, howned, hborrowed⟩ := h
  rw [Preemptable.frees, howned, hborrowed, ← List.countP_eq_length_filter]
  cases borrowing with
  | false => simp
  | true =>
    have hsplit := List.length_eq_countP_add_countP shared (l := entry.job.gpus)
    have hnot : entry.job.gpus.countP (fun c => !shared c)
        = entry.job.gpus.countP (fun c => decide ¬ shared c = true) :=
      List.countP_congr fun c _ => by simp
    have hall : entry.job.gpus.countP (fun c => true || !shared c) = entry.job.gpus.length := by
      simp
    rw [if_pos rfl]
    omega

/-- **A stop frees what the job was counted for, or takes its excess away with it.** -/
theorem excess_stop {jobs : List Request} {s : Replay} (h : Sound jobs s) {jobId : JobId}
    {entry : Stoppable} (hentry : s.stoppable.get? jobId = some entry)
    (hlive : entry.live s.clock = true) :
    (s.stop jobId).excess < s.excess ∨ ((s.stop jobId).excess ≤ s.excess ∧
      ∀ borrowing, s.usable borrowing + entry.job.frees borrowing
        ≤ (s.stop jobId).usable borrowing) := by
  have hget : s.current.get? jobId = some entry := by
    rw [current_eq, Dict.get?_filter, hentry, Option.filter_eq_some_iff]
    exact ⟨rfl, hlive⟩
  have hcurrent : (s.stop jobId).current = s.current.erase jobId := by
    rw [current_eq, current_eq, stop_clock, stop_eq hentry]
    exact Dict.filter_erase _ _ _
  have hperm : s.current.values.Perm (entry :: (s.stop jobId).current.values) := by
    rw [hcurrent]
    exact Dict.values_erase hget
  have hcards : ∀ p : Card → Bool, (s.stop jobId).cards.countP p
      = s.cards.countP fun card =>
        p (if card.uuid ∈ entry.job.gpus then { card with releaseS := some s.clock } else card) :=
    fun p => by
      rw [stop_eq hentry]
      exact List.countP_map
  have huuids : ((s.stop jobId).cards.map Card.uuid).Nodup := by
    rw [stop_uuids]
    exact h.uuids
  -- of the cards it lists, those that are not free yet are all it can have held
  have hheld : cardsHeld s.cards (entry :: (s.stop jobId).current.values)
      ≤ cardsHeld (s.stop jobId).cards (s.stop jobId).current.values
        + s.cards.countP fun card =>
          decide (card.uuid ∈ entry.job.gpus) && !card.freeBy s.clock := by
    rw [cardsHeld, cardsHeld, hcards]
    refine countP_le_add fun card hcard hholds => ?_
    by_cases hc : card.uuid ∈ entry.job.gpus
    · refine .inr ?_
      by_contra hnot
      have hfree : card.freeBy s.clock = true := by simpa [hc] using hnot
      refine Bool.false_ne_true ((heldBy_of_free ?_ hfree).symm.trans hholds)
      exact fun f hf => current_live (hperm.mem_iff.mpr hf)
    · rw [if_neg hc]
      rw [heldBy, List.any_cons, Bool.or_eq_true, decide_eq_true_iff] at hholds
      exact .inl (hholds.resolve_left fun hin => hc hin.1)
  have hnotFree : (s.cards.countP fun card =>
      decide (card.uuid ∈ entry.job.gpus) && !card.freeBy s.clock) ≤ entry.job.gpus.length :=
    (List.countP_mono_left fun card _ hcard => (Bool.and_eq_true_iff.mp hcard).1).trans
      (countP_uuid_le h.uuids entry.job.gpus)
  have hle := cardsHeld_le huuids s.isShared (s.stop jobId).current.values
  have hbefore : s.excess = entry.lists s.isShared
      + ((s.stop jobId).current.values.map fun entry => entry.lists s.isShared).sum
      - cardsHeld s.cards (entry :: (s.stop jobId).current.values) := by
    rw [excess, excess_perm s.isShared hperm, Host.excess, List.map_cons, List.sum_cons]
  have hafter : (s.stop jobId).excess
      = ((s.stop jobId).current.values.map fun entry => entry.lists s.isShared).sum
        - cardsHeld (s.stop jobId).cards (s.stop jobId).current.values := by
    rw [excess, stop_isShared, Host.excess]
  by_cases hgood : entry.Exact s.isShared ∧ (s.cards.countP fun card =>
      decide (card.uuid ∈ entry.job.gpus) && !card.freeBy s.clock) = entry.job.gpus.length
  · obtain ⟨hexact, hall⟩ := hgood
    refine .inr ⟨?_, fun borrowing => ?_⟩
    · rw [Stoppable.lists, if_pos hexact] at hbefore
      omega
    rw [frees_of_exact hexact, usable, usable, hcards, stop_clock, ← countP_uuid_eq h.uuids
      (hexact.1.filter _) fun c hc => h.among _ _ hentry c (List.mem_of_mem_filter hc)]
    refine add_countP_le (fun card _ hcard => ?_) (fun card hcard hc => ?_)
      fun card hcard hfree => ?_
    · by_cases hc : card.uuid ∈ entry.job.gpus
      · simpa [hc, Card.freeBy] using (Bool.and_eq_true_iff.mp hcard).2
      · rwa [if_neg hc]
    · obtain ⟨hc, huse⟩ := List.mem_filter.mp (of_decide_eq_true hc)
      rw [isShared_uuid h.uuids hcard] at huse
      simpa [hc, Card.freeBy] using huse
    · refine decide_eq_false fun hc => ?_
      have hlt := countP_lt
        (p := fun card => decide (card.uuid ∈ entry.job.gpus) && !card.freeBy s.clock)
        (q := fun card => decide (card.uuid ∈ entry.job.gpus))
        (fun card _ hcard => (Bool.and_eq_true_iff.mp hcard).1) hcard
        (by simp [(Bool.and_eq_true_iff.mp hfree).1])
        (by simpa using List.mem_of_mem_filter hc)
      have hmost := countP_uuid_le h.uuids entry.job.gpus
      omega
  · refine .inl ?_
    rw [Stoppable.lists] at hbefore
    rw [not_and_or] at hgood
    split at hbefore
    · next hexact =>
      have hfew := hgood.resolve_left (not_not.mpr hexact)
      omega
    · omega

/-- **Stopping a pass's list of jobs**: each frees what it was counted for, or some excess goes. -/
theorem excess_stops {jobs : List Request} (entries : List Stoppable) {s : Replay}
    (h : Sound jobs s) (hids : (entries.map fun entry => entry.job.jobId).Nodup)
    (hentries : ∀ entry ∈ entries, s.stoppable.get? entry.job.jobId = some entry ∧
      entry.live s.clock = true) :
    let after := (entries.map fun entry => entry.job.jobId).foldl stop s
    after.excess < s.excess ∨ (after.excess ≤ s.excess ∧ ∀ borrowing,
      s.usable borrowing + (entries.map fun entry => entry.job.frees borrowing).sum
        ≤ after.usable borrowing) := by
  induction entries generalizing s with
  | nil => exact .inr ⟨le_rfl, fun _ => le_rfl⟩
  | cons entry entries ih =>
    obtain ⟨hget, hlive⟩ := hentries entry List.mem_cons_self
    rw [List.map_cons] at hids
    obtain ⟨hnot, hrest⟩ := List.nodup_cons.mp hids
    have hstop := excess_stop h hget hlive
    have hothers : ∀ f ∈ entries,
        (s.stop entry.job.jobId).stoppable.get? f.job.jobId = some f ∧
          f.live (s.stop entry.job.jobId).clock = true := by
      intro f hf
      obtain ⟨hfget, hflive⟩ := hentries f (List.mem_cons_of_mem entry hf)
      have hne : f.job.jobId ≠ entry.job.jobId := fun heq =>
        hnot (List.mem_map.mpr ⟨f, hf, heq⟩)
      rw [stop_clock, stop_eq hget]
      refine ⟨?_, hflive⟩
      show (s.stoppable.erase entry.job.jobId).get? f.job.jobId = some f
      rw [Dict.get?_erase, if_neg hne, hfget]
    have hmore := ih (h.stop entry.job.jobId) hrest hothers
    simp only [List.map_cons, List.foldl_cons, List.sum_cons] at hmore ⊢
    rcases hmore with hlt | ⟨hle, hfrees⟩
    · refine .inl ?_
      rcases hstop with hstop | ⟨hstop, -⟩ <;> omega
    · rcases hstop with hstop | ⟨hstop, hfreed⟩
      · exact .inl (by omega)
      · refine .inr ⟨hle.trans hstop, fun borrowing => ?_⟩
        have hone := hfreed borrowing
        have hall := hfrees borrowing
        omega

end Replay

end Gpuc.Host
