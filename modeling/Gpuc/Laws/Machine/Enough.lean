import Gpuc.Laws.Machine.PassSteps
import Gpuc.Laws.Plan.Replan

/-!
# What is enough for the job at the front

The job at the front of the queue (`Fronts`) is the first that the host could ever give its cards. Once
something is stopped, the free cards it may use and those on their way back are enough for it
(`enough_of_orders`). They stay enough, and a card that is back is kept for it, until it is started
(`step_enough`); when they are all back, it is started (`launches_front`).
-/

set_option autoImplicit false

namespace Gpuc.Host

open Gpuc.Basis

namespace Service

variable {s t : Service} {stamp : String → Option Seconds} {inUse : List Uuid} {r : Request}

/-! ## The job at the front -/

/-- The cards a request could have, were all of ours free. -/
def oursFor (inUse : List Uuid) (s : Service) (r : Request) : Int :=
  s.dispatcher.cards.owned.length
    + if r.borrows then (s.dispatcher.cards.shared.length : Int) - s.theirs inUse else 0

/-- **The job waits at the front**: the host could give it its cards, and none of those ahead
theirs. -/
structure Fronts (inUse : List Uuid) (s : Service) (r : Request) : Prop where
  waiting : s.Waiting r
  could : (r.gpus : Int) ≤ s.oursFor inUse r
  ahead : ∀ q, s.Waiting q → q.key < r.key → s.oursFor inUse q < q.gpus

/-- May the request be started on this card? -/
def Usable (inUse : List Uuid) (s : Service) (r : Request) (c : Uuid) : Prop :=
  c ∈ s.dispatcher.cards.owned ∨
    (r.borrows = true ∧ c ∈ s.dispatcher.cards.shared ∧ c ∉ inUse)

/-- **These cards are enough for the request**, once those on their way back are here. -/
structure Enough (inUse : List Uuid) (s : Service) (r : Request) (cards : List Uuid) : Prop where
  once : cards.Nodup
  many : r.gpus ≤ cards.length
  usable : ∀ c ∈ cards, s.Usable inUse r c
  back : ∀ c ∈ cards, c ∉ s.taken ∨ s.Returning c

section Walk
variable (hkept : s.Kept) (hlisted : s.Listed inUse)
include hkept hlisted

theorem pool_oursFor (r : Request) :
    (s.dispatcher.pool stamp s.jobs inUse).oursFor r = s.oursFor inUse r := by
  rw [Pool.oursFor, pool_theirs hkept hlisted]
  rfl

theorem mem_pool_freeFor {c : Uuid} :
    c ∈ (s.dispatcher.pool stamp s.jobs inUse).freeFor r ↔ s.Usable inUse r c ∧ c ∉ s.taken := by
  unfold Pool.freeFor Usable
  rw [List.mem_append, mem_ownedFree hkept hlisted]
  cases r.borrows with
  | false => simp
  | true =>
    simp only [if_true, mem_borrowable hkept hlisted, true_and]
    tauto

theorem nodup_pool_freeFor : ((s.dispatcher.pool stamp s.jobs inUse).freeFor r).Nodup := by
  have hdistinct := pool_distinct stamp hkept hlisted
  unfold Pool.freeFor
  refine hdistinct.owned.append ?_ ?_
  · split
    · exact hdistinct.shared
    · exact List.nodup_nil
  · intro c hc hc'
    split at hc'
    · exact hdistinct.apart hc hc'
    · exact List.not_mem_nil hc'

omit hkept hlisted in
theorem mem_pool_comingFor {c : Uuid} (hcards : (s.dispatcher.cards.owned
      ++ s.dispatcher.cards.shared).Nodup) :
    c ∈ (s.dispatcher.pool stamp s.jobs inUse).comingFor r ↔ s.Returning c ∧
      (c ∈ s.dispatcher.cards.owned ∨ (r.borrows = true ∧ c ∈ s.dispatcher.cards.shared)) := by
  have hshared : (s.dispatcher.pool stamp s.jobs inUse).shared
      = s.dispatcher.cards.shared.toFinset := rfl
  have hapart : c ∈ s.dispatcher.cards.owned → c ∉ s.dispatcher.cards.shared := fun hc =>
    (List.nodup_append'.mp hcards).2.2 hc
  unfold Pool.comingFor
  rw [List.mem_filter, mem_coming, hshared]
  cases r.borrows with
  | false =>
    simp only [Bool.false_or, decide_eq_true_eq, List.mem_toFinset, Bool.false_eq_true, false_and,
      or_false]
    tauto
  | true => simp

variable (stamp) in
/-- The requests ahead of the one at the front. -/
theorem Fronts.split (hfronts : s.Fronts inUse r) :
    ∃ ahead rest, (s.dispatcher.requests s.jobs).map Prod.snd = ahead ++ r :: rest ∧
      ∀ q ∈ ahead, (s.dispatcher.pool stamp s.jobs inUse).oursFor q < q.gpus := by
  obtain ⟨ahead, rest, hsplit⟩ :=
    List.append_of_mem ((mem_requests_iff hlisted).mpr hfronts.waiting)
  refine ⟨ahead, rest, hsplit, fun q hq => ?_⟩
  have hsorted := requests_sorted hlisted
  have hin : q ∈ (s.dispatcher.requests s.jobs).map Prod.snd := by
    rw [hsplit]
    exact List.mem_append_left _ hq
  rw [hsplit] at hsorted
  rw [pool_oursFor hkept hlisted]
  exact hfronts.ahead q ((mem_requests_iff hlisted).mp hin)
    ((List.pairwise_append.mp hsorted).2.2 q hq r List.mem_cons_self)

variable (stamp) in
/-- **What a walk decides while there are enough**: the job at the front is started, or the free ones
are kept for it. -/
theorem Enough.kept_or_started (hfronts : s.Fronts inUse r) {cards : List Uuid}
    (henough : s.Enough inUse r cards) :
    let decisions := plan ((s.dispatcher.requests s.jobs).map Prod.snd)
      (s.dispatcher.pool stamp s.jobs inUse)
    (∃ gpus heldFor, .assigned r.jobId gpus heldFor ∈ decisions) ∨
      ((∀ c ∈ cards, c ∉ s.taken → ∀ d ∈ decisions, c ∉ d.gpus) ∧ ∃ c ∈ cards, c ∈ s.taken) := by
  obtain ⟨ahead, rest, hsplit, hless⟩ := hfronts.split stamp hkept hlisted
  have hcounted := pool_counted stamp hkept hlisted
  have hdistinct := pool_distinct stamp hkept hlisted
  have hours : (r.gpus : Int) ≤ (s.dispatcher.pool stamp s.jobs inUse).oursFor r := by
    rw [pool_oursFor hkept hlisted]
    exact hfronts.could
  have hfree : ∀ {c}, c ∈ cards → c ∉ s.taken →
      c ∈ (s.dispatcher.pool stamp s.jobs inUse).freeFor r := fun hc hnot =>
    (mem_pool_freeFor hkept hlisted).mpr ⟨henough.usable _ hc, hnot⟩
  dsimp only
  rw [hsplit]
  by_cases hnow : r.gpus ≤ ((s.dispatcher.pool stamp s.jobs inUse).freeFor r).length
  · exact .inl ⟨_, _, front_assigned hcounted hless hours hnow rest⟩
  refine .inr ⟨fun c hc hnot => ?_, ?_⟩
  · apply front_keeps hcounted hless hours hdistinct (not_le.mp hnow) _ rest (hfree hc hnot)
    -- each of them is free, or on its way back
    have hsub : cards ⊆ (s.dispatcher.pool stamp s.jobs inUse).freeFor r
        ++ (s.dispatcher.pool stamp s.jobs inUse).comingFor r := by
      intro c hc
      rcases henough.back c hc with hnot | hreturning
      · exact List.mem_append_left _ (hfree hc hnot)
      · refine List.mem_append_right _ ((mem_pool_comingFor hkept.cards).mpr ⟨hreturning, ?_⟩)
        exact (henough.usable c hc).imp_right fun h => ⟨h.1, h.2.1⟩
    have hle := (List.subperm_of_subset henough.once hsub).length_le
    rw [List.length_append] at hle
    have hmany := henough.many
    omega
  · by_contra hnone
    push Not at hnone
    refine hnow (le_trans henough.many ?_)
    exact (List.subperm_of_subset henough.once fun c hc => hfree hc (hnone c hc)).length_le

end Walk

/-! ## What is stopped for it -/

section Stops
variable (hkept : s.Kept)

/-- **A job that may be stopped** runs, nobody having asked anything of it. -/
theorem mem_autoPreemptable {p : Preemptable}
    (hp : p ∈ s.dispatcher.autoPreemptable stamp s.jobs) :
    ∃ entry dir, s.dispatcher.running.get? p.jobId = some entry ∧
      s.jobs.get? p.jobId = some dir ∧ dir.state.intent = none ∧ dir.state.status = .running ∧
      p.priority = dir.state.priority ∧ p.gpus = entry.gpus ∧
      (p.owned = entry.gpus.countP fun c => c ∈ s.dispatcher.cards.owned) ∧
      p.borrowed = entry.gpus.countP fun c => c ∈ s.dispatcher.cards.shared := by
  obtain ⟨⟨jobId, entry⟩, hentry, hsome⟩ := List.mem_filterMap.mp hp
  dsimp only at hsome
  split at hsome
  · next spec state hdir =>
    split at hsome
    · next hcan =>
      obtain rfl := Option.some.inj hsome
      exact ⟨entry, ⟨some spec, state⟩, Dict.get?_eq_some.mpr hentry, hdir, hcan.1, hcan.2.2, rfl,
        rfl, rfl, rfl⟩
    · cases hsome
  · cases hsome

theorem autoPreemptable_nodup :
    ((s.dispatcher.autoPreemptable stamp s.jobs).map Preemptable.jobId).Nodup := by
  refine (map_filterMap_sublist (fun e p hp => ?_) s.dispatcher.running.entries).nodup
    s.dispatcher.running.nodup
  dsimp only at hp
  split at hp
  · split at hp
    · obtain rfl := Option.some.inj hp
      rfl
    · cases hp
  · cases hp

/-- Every visible card, and the shared ones, as the counts of a running job see them. -/
theorem autoPreemptable_counted
    (hcards : (s.dispatcher.cards.owned ++ s.dispatcher.cards.shared).Nodup) {p : Preemptable}
    (hp : p ∈ s.dispatcher.autoPreemptable stamp s.jobs) :
    p.Counted (s.dispatcher.cards.owned ++ s.dispatcher.cards.shared).toFinset
      s.dispatcher.cards.shared.toFinset := by
  obtain ⟨entry, dir, -, -, -, -, -, hgpus, howned, hborrowed⟩ := mem_autoPreemptable hp
  have hapart : ∀ c, c ∈ s.dispatcher.cards.owned → c ∉ s.dispatcher.cards.shared := fun c hc =>
    (List.nodup_append'.mp hcards).2.2 hc
  constructor
  · rw [howned, hgpus]
    refine List.countP_congr fun c _ => ?_
    have hnot := hapart c
    simp only [decide_eq_true_eq, List.mem_toFinset, List.mem_append]
    tauto
  · rw [hborrowed, hgpus]
    refine List.countP_congr fun c _ => ?_
    simp only [decide_eq_true_eq, List.mem_toFinset, List.mem_append]
    tauto

include hkept

variable (stamp) in
/-- No card is under two jobs that may be stopped. -/
theorem stops_nodup {stops : List Preemptable} (honce : (stops.map Preemptable.jobId).Nodup)
    (hstops : ∀ p ∈ stops, p ∈ s.dispatcher.autoPreemptable stamp s.jobs) :
    (stops.flatMap Preemptable.gpus).Nodup := by
  refine List.nodup_flatMap.mpr ⟨fun p hp => ?_, ?_⟩
  · obtain ⟨entry, -, hentry, -, -, -, -, hgpus, -⟩ := mem_autoPreemptable (hstops p hp)
    rw [hgpus]
    exact hkept.once p.jobId entry hentry
  · refine (List.pairwise_map.mp honce).imp_of_mem fun {p q} hp hq hne c hc hc' => hne ?_
    obtain ⟨entry, -, hentry, -, -, -, -, hgpus, -⟩ := mem_autoPreemptable (hstops p hp)
    obtain ⟨entry', -, hentry', -, -, -, -, hgpus', -⟩ := mem_autoPreemptable (hstops q hq)
    exact hkept.apart p.jobId q.jobId entry entry' c hentry hentry' (hgpus ▸ hc) (hgpus' ▸ hc')

/-- A card under a job that may be stopped is not on its way back. -/
theorem not_returning {p : Preemptable} (hp : p ∈ s.dispatcher.autoPreemptable stamp s.jobs)
    {c : Uuid} (hc : c ∈ p.gpus) : c ∈ s.taken ∧ ¬ s.Returning c := by
  obtain ⟨entry, dir, hentry, hdir, hintent, hrunning, -, hgpus, -⟩ := mem_autoPreemptable hp
  rw [hgpus] at hc
  refine ⟨mem_taken.mpr ⟨p.jobId, entry, hentry, hc⟩, ?_⟩
  rintro ⟨jobId, entry', hentry', hleaving, hc'⟩
  have hsame := hkept.apart p.jobId jobId entry entry' c hentry hentry' hc hc'
  subst hsame
  rw [leaving_eq hdir] at hleaving
  simp [hrunning, hintent] at hleaving

variable (stamp) in
/-- **The stops of a walk are made**, and the cards of the jobs stopped are on their way back. -/
theorem stopEach_returning (hwaiting : s.Waiting r) (hgpus : 0 < r.gpus) {stops : List Preemptable}
    (hstops : ∀ p ∈ stops, p ∈ s.dispatcher.autoPreemptable stamp s.jobs ∧ r.key < p.key ∧
      p.frees r.borrows ≠ 0) {p : Preemptable} (hp : p ∈ stops) {c : Uuid} (hc : c ∈ p.gpus) :
    (s.stopEach (stops.map Preemptable.jobId)).Returning c := by
  obtain ⟨entry, -, hentry, -, -, -, -, hsame, -⟩ := mem_autoPreemptable (hstops p hp).1
  have hall : ∀ j ∈ stops.map Preemptable.jobId,
      (s.stopEach (stops.map Preemptable.jobId)).Stopping j := by
    apply stopEach_stops hkept hwaiting hgpus
    intro j hj
    obtain ⟨q, hq, rfl⟩ := List.mem_map.mp hj
    obtain ⟨hmem, hahead, hfrees⟩ := hstops q hq
    obtain ⟨entry, dir, hentry, hdir, hintent, hrunning, hpriority, hgpus, howned, hborrowed⟩ :=
      mem_autoPreemptable hmem
    refine ⟨dir, hdir, hrunning, by rw [hintent]; nofun, ?_, ?_⟩
    · apply hkept.wanted q.jobId entry hentry
      intro hnil
      rw [hnil] at howned hborrowed
      unfold Preemptable.frees at hfrees
      rw [howned, hborrowed] at hfrees
      simp at hfrees
    · rw [← hpriority]
      exact hahead
  obtain ⟨entry', hentry', hleaving⟩ := hall p.jobId (List.mem_map_of_mem hp)
  have hrunning := (stopEach_advances hkept (stops.map Preemptable.jobId)).2.2
  have hsame' := hentry'
  rw [hrunning, hentry] at hsame'
  obtain rfl := Option.some.inj hsame'
  exact ⟨p.jobId, entry, hentry', hleaving, hsame ▸ hc⟩

end Stops

/-- Dropping the jobs whose spec cannot be read leaves the job at the front there. -/
theorem Fronts.drops (hkept : s.Kept) (hfronts : s.Fronts inUse r) (now : String) :
    (s.drops now).Fronts inUse r := by
  obtain ⟨hadvances, -, -, hrunning, -, hwaiting⟩ := drops_spec inUse hkept now
  have hours : ∀ q, (s.drops now).oursFor inUse q = s.oursFor inUse q := by
    intro q
    rw [oursFor, theirs, taken, hrunning, hadvances.same.cards]
    rfl
  refine ⟨(hwaiting r).mpr hfronts.waiting, by rw [hours]; exact hfronts.could, fun q hq hkey => ?_⟩
  rw [hours]
  exact hfronts.ahead q ((hwaiting q).mp hq) hkey

variable (stamp) in
/-- **The free cards, those on their way back and those of the jobs stopped** are enough for it, if
they are as many as it asks for. -/
theorem enough_of_stops (hkept : s.Kept) (hlisted : s.Listed inUse) {stops : List Preemptable}
    (hstops : ∀ p ∈ stops, p ∈ s.dispatcher.autoPreemptable stamp s.jobs)
    (hcards : t.dispatcher.cards = s.dispatcher.cards) (htaken : t.taken = s.taken)
    (hreturning : ∀ c, s.Returning c → t.Returning c)
    (hstopped : ∀ p ∈ stops, ∀ c ∈ p.gpus, t.Returning c)
    (hothers : ∀ c ∈ s.dispatcher.cards.shared, c ∈ inUse → ¬ t.Returning c)
    (hmany : r.gpus ≤ ((s.dispatcher.pool stamp s.jobs inUse).freeFor r).length
      + ((s.dispatcher.pool stamp s.jobs inUse).comingFor r).length
      + ((handedBack (s.dispatcher.cards.owned ++ s.dispatcher.cards.shared).toFinset stops).filter
        fun c => r.borrows || c ∉ s.dispatcher.cards.shared.toFinset).length) :
    ∃ cards, t.Enough inUse r cards := by
  generalize hfree : (s.dispatcher.pool stamp s.jobs inUse).freeFor r = free at hmany
  generalize hcoming : (s.dispatcher.pool stamp s.jobs inUse).comingFor r = coming at hmany
  generalize hhanded : (handedBack (s.dispatcher.cards.owned
    ++ s.dispatcher.cards.shared).toFinset stops).filter
      (fun c => r.borrows || c ∉ s.dispatcher.cards.shared.toFinset) = handed at hmany
  have hfreeOf : ∀ c ∈ free, s.Usable inUse r c ∧ c ∉ s.taken := fun c hc =>
    (mem_pool_freeFor hkept hlisted).mp (hfree ▸ hc)
  have hcomingOf : ∀ c ∈ coming, s.Returning c ∧ (c ∈ s.dispatcher.cards.owned ∨
      (r.borrows = true ∧ c ∈ s.dispatcher.cards.shared)) := fun c hc =>
    (mem_pool_comingFor hkept.cards).mp (hcoming ▸ hc)
  have hhandedOf : ∀ c ∈ handed, (∃ p ∈ stops, c ∈ p.gpus) ∧ (c ∈ s.dispatcher.cards.owned ∨
      (r.borrows = true ∧ c ∈ s.dispatcher.cards.shared)) := by
    intro c hc
    rw [← hhanded] at hc
    obtain ⟨hc, hmay⟩ := List.mem_filter.mp hc
    obtain ⟨hmem, hvisible⟩ := List.mem_filter.mp (List.mem_dedup.mp hc)
    refine ⟨List.mem_flatMap.mp hmem, ?_⟩
    simp only [Bool.or_eq_true, decide_eq_true_eq, List.mem_toFinset, List.mem_append]
      at hmay hvisible
    tauto
  -- a shared card that comes back is not one that somebody else is on
  have husable : ∀ c, t.Returning c → (c ∈ s.dispatcher.cards.owned ∨
      (r.borrows = true ∧ c ∈ s.dispatcher.cards.shared)) → t.Usable inUse r c := by
    intro c hc hmay
    unfold Usable
    rw [hcards]
    exact hmay.imp_right fun h => ⟨h.1, h.2, fun hused => hothers c h.2 hused hc⟩
  refine ⟨free ++ coming ++ handed, ?_, ?_, fun c hc => ?_, fun c hc => ?_⟩
  · refine List.Nodup.append (List.Nodup.append ?_ ?_ ?_) ?_ ?_
    · rw [← hfree]
      exact nodup_pool_freeFor hkept hlisted
    · rw [← hcoming]
      exact (nodup_coming hkept).filter _
    · intro c hc hc'
      exact (hfreeOf c hc).2 (hcomingOf c hc').1.taken
    · rw [← hhanded]
      exact (List.nodup_dedup _).filter _
    · intro c hc hc'
      obtain ⟨p, hp, hcp⟩ := (hhandedOf c hc').1
      obtain ⟨htaken', hnot⟩ := not_returning hkept (hstops p hp) hcp
      rcases List.mem_append.mp hc with hc | hc
      · exact (hfreeOf c hc).2 htaken'
      · exact hnot (hcomingOf c hc).1
  · rw [List.length_append, List.length_append]
    exact hmany
  · rcases List.mem_append.mp hc with hc | hc
    · rcases List.mem_append.mp hc with hc | hc
      · have huse := (hfreeOf c hc).1
        unfold Usable at huse ⊢
        rwa [hcards]
      · exact husable c (hreturning c (hcomingOf c hc).1) (hcomingOf c hc).2
    · obtain ⟨⟨p, hp, hcp⟩, hmay⟩ := hhandedOf c hc
      exact husable c (hstopped p hp c hcp) hmay
  · rcases List.mem_append.mp hc with hc | hc
    · rcases List.mem_append.mp hc with hc | hc
      · rw [htaken]
        exact .inl (hfreeOf c hc).2
      · exact .inr (hreturning c (hcomingOf c hc).1)
    · obtain ⟨⟨p, hp, hcp⟩, -⟩ := hhandedOf c hc
      exact .inr (hstopped p hp c hcp)

/-- The jobs a walk stops for the first job with a gap are those `preempt_for_waiting` stops. -/
theorem preemptForWaiting_front {d : Dispatcher} {jobs : Jobs} {ahead rest : List Request}
    {owned shared gap : Nat} {preempts : List JobId}
    (hsplit : (d.requests jobs).map Prod.snd = ahead ++ r :: rest)
    (hahead : ∀ decision ∈ plan ahead (d.pool stamp jobs inUse),
      ∀ jobId owned shared gap preempts, decision ≠ .holds jobId owned shared gap preempts)
    (hturn : ((walkTo (d.pool stamp jobs inUse) ahead).turn r).1
      = .holds r.jobId owned shared gap preempts) (hgap : gap ≠ 0) :
    d.preemptForWaiting stamp jobs inUse = preempts := by
  unfold Dispatcher.preemptForWaiting
  dsimp only
  rw [hsplit, plan_split, hturn]
  show Option.getD (List.findSome? _ _) [] = Option.getD (some preempts) []
  refine congrArg (fun found => Option.getD found []) ?_
  refine List.findSome?_eq_some_iff.mpr
    ⟨_, _, _, rfl, if_neg hgap, fun decision hdecision => ?_⟩
  have hnot := hahead decision hdecision
  cases decision with
  | holds jobId owned shared gap preempts => exact absurd rfl (hnot _ _ _ _ _)
  | _ => rfl

/-- **When something is stopped, the job at the front will have enough.** -/
theorem enough_of_orders (hkept : s.Kept) (hlisted : s.Listed inUse) (hfronts : s.Fronts inUse r)
    {now : String} (hstep : s.preempts stamp inUse now = some t)
    (horders : s.orders stamp inUse (.preempts now) ≠ [])
    (hothers : ∀ c ∈ s.dispatcher.cards.shared, c ∈ inUse → ¬ t.Returning c) :
    ∃ cards, t.Enough inUse r cards := by
  obtain ⟨hdrops, hkeptDropped, hlistedDropped, -, -, -⟩ :=
    drops_spec inUse hkept now
  replace hlistedDropped := hlistedDropped hlisted
  have hfrontsDropped := hfronts.drops hkept now
  obtain ⟨hkept', hwalked⟩ := preemptWalked_kept stamp inUse hkept now
  obtain ⟨ht, -⟩ := preempts_spec hkept hstep
  obtain ⟨hadvances, -, hsame⟩ :=
    stopEach_advances hkept' (s.orders stamp inUse (.preempts now))
  rw [← ht] at hadvances hsame
  have hreturning : ∀ c, (s.drops now).Returning c → t.Returning c := fun c hc =>
    (hwalked.trans hadvances).returning hc
  have htaken : t.taken = (s.drops now).taken := by
    rw [taken, hsame]
    rfl
  have hcards : t.dispatcher.cards = (s.drops now).dispatcher.cards := by
    rw [hsame]
    rfl
  have hothers' : ∀ c ∈ (s.drops now).dispatcher.cards.shared, c ∈ inUse → ¬ t.Returning c := by
    rw [hdrops.same.cards]
    exact hothers
  obtain ⟨ahead, rest, hsplit, hless⟩ :=
    hfrontsDropped.split stamp hkeptDropped hlistedDropped
  have hcounted := pool_counted stamp hkeptDropped hlistedDropped
  have hdistinct := pool_distinct stamp hkeptDropped hlistedDropped
  have hours : (r.gpus : Int)
      ≤ ((s.drops now).dispatcher.pool stamp (s.drops now).jobs inUse).oursFor r := by
    rw [pool_oursFor hkeptDropped hlistedDropped]
    exact hfrontsDropped.could
  obtain ⟨hfresh, hnone⟩ := fresh_walkTo hcounted hless
  by_cases hcovered : r.gpus
      ≤ (((s.drops now).dispatcher.pool stamp (s.drops now).jobs inUse).freeFor r).length
        + (((s.drops now).dispatcher.pool stamp (s.drops now).jobs inUse).comingFor r).length
  · -- without a stop
    refine @enough_of_stops _ t stamp _ _ hkeptDropped hlistedDropped []
      (fun p hp => absurd hp List.not_mem_nil) hcards htaken hreturning
      (fun p hp => absurd hp List.not_mem_nil) hothers' ?_
    exact le_trans hcovered (Nat.le_add_right _ _)
  · have hshort : (((s.drops now).dispatcher.pool stamp (s.drops now).jobs inUse).freeFor r).length
        < r.gpus := by omega
    obtain ⟨hturn, hall⟩ := front_waits hcounted hless hours hdistinct hshort
    have hgap := hfresh.shortFor r
    rw [hall] at hgap
    have hne : (walkTo ((s.drops now).dispatcher.pool stamp (s.drops now).jobs inUse)
        ahead).shortFor r ≠ 0 := by omega
    -- it is the first job with a gap, so the stops are for it
    have hholds : ∃ owned shared gap preempts,
        ((walkTo ((s.drops now).dispatcher.pool stamp (s.drops now).jobs inUse) ahead).turn r).1
          = .holds r.jobId owned shared gap preempts := by
      rw [hturn]
      exact ⟨_, _, _, _, rfl⟩
    obtain ⟨owned, shared, gap, preempts, hholds⟩ := hholds
    obtain ⟨-, -, -, -, hgapEq, hpreempts⟩ := turn_of_holds hholds
    have horder : s.orders stamp inUse (.preempts now) = preempts :=
      preemptForWaiting_front hsplit (fun d hd => (hnone d hd).2) hholds (hgapEq ▸ hne)
    generalize hstopsFor : (walkTo ((s.drops now).dispatcher.pool stamp (s.drops now).jobs inUse)
      ahead).stopsFor r gap = stops at hpreempts
    have hmem : ∀ p ∈ stops, p ∈ (s.drops now).dispatcher.autoPreemptable stamp (s.drops now).jobs ∧
        r.key < p.key ∧ p.frees r.borrows ≠ 0 := by
      intro p hp
      rw [← hstopsFor] at hp
      obtain ⟨-, -, hin, hkey⟩ := mem_stopsFor hp
      rw [hfresh.spent.preemptable] at hin
      exact ⟨hin, hkey, stopsFor_frees hp⟩
    have honce : (stops.map Preemptable.jobId).Nodup := by
      rw [← hstopsFor]
      refine stopsFor_nodup r gap ?_
      rw [hfresh.spent.preemptable]
      exact autoPreemptable_nodup
    have hstopsNe : stops ≠ [] := by
      intro hnil
      rw [hpreempts, hnil] at horder
      exact horders horder
    have hwaiting : (s.preemptWalked stamp inUse now).Waiting r := hfrontsDropped.waiting
    refine enough_of_stops stamp hkeptDropped hlistedDropped
      (fun p hp => (hmem p hp).1) hcards htaken hreturning (fun p hp c hc => ?_) hothers' ?_
    · rw [ht, horder, hpreempts]
      exact stopEach_returning stamp hkept' hwaiting (by omega) hmem hp hc
    · have hfrees := @gap_le_handedBack
        (walkTo ((s.drops now).dispatcher.pool stamp (s.drops now).jobs inUse) ahead) r gap
        ((s.drops now).dispatcher.cards.owned ++ (s.drops now).dispatcher.cards.shared).toFinset
        (s.drops now).dispatcher.cards.shared.toFinset (by rw [hstopsFor]; exact hstopsNe)
        (by rw [hstopsFor]; exact stops_nodup stamp hkeptDropped honce fun p hp => (hmem p hp).1)
        (by
          rw [hstopsFor]
          exact fun p hp => autoPreemptable_counted hkeptDropped.cards (hmem p hp).1)
      rw [hstopsFor] at hfrees
      omega

/-! ## What one step leaves of it -/

/-- Dropping the jobs whose spec cannot be read leaves the cards enough. -/
theorem Enough.drops (hkept : s.Kept) {cards : List Uuid} (henough : s.Enough inUse r cards)
    (now : String) : (s.drops now).Enough inUse r cards ∧ (s.drops now).taken = s.taken := by
  obtain ⟨hdrops, -, -, hrunning, -, -⟩ := drops_spec inUse hkept now
  have htaken : (s.drops now).taken = s.taken := by rw [taken, hrunning, taken]
  refine ⟨⟨henough.once, henough.many, fun c hc => ?_, fun c hc => ?_⟩, htaken⟩
  · have huse := henough.usable c hc
    unfold Usable at huse ⊢
    rwa [hdrops.same.cards]
  · rw [htaken]
    exact (henough.back c hc).imp_right hdrops.returning

section Step
variable {label : PassStep} (hsound : Sound inUse s)
  (hstep : s.step stamp inUse label = some t)
include hsound hstep

/-- A pass that launches, or preempts, has the queue listed. -/
theorem step_listed (hlabel : (∃ clock now, label = .launches clock now) ∨
    ∃ now, label = .preempts now) : s.Listed inUse := by
  refine hsound.listed fun hidle => ?_
  rcases hlabel with ⟨clock, now, rfl⟩ | ⟨now, rfl⟩
  · change s.launches stamp inUse clock now = some t at hstep
    unfold launches at hstep
    rw [hidle] at hstep
    cases hstep
  · change s.preempts stamp inUse now = some t at hstep
    unfold preempts at hstep
    rw [hidle] at hstep
    cases hstep

/-- **Only a launch takes a card**, and only one that its walk hands out. -/
theorem step_taken {c : Uuid} (hc : c ∈ t.taken) :
    c ∈ s.taken ∨ ∃ clock now, label = .launches clock now ∧
      ∃ d ∈ plan (((s.drops now).dispatcher.requests (s.drops now).jobs).map Prod.snd)
        ((s.drops now).dispatcher.pool stamp (s.drops now).jobs inUse), c ∈ d.gpus := by
  cases label with
  | writes jobId write =>
    obtain rfl := Option.some.inj hstep
    obtain ⟨-, -, -, hsame⟩ := writes_advances inUse hsound.kept jobId write
    rw [taken, hsame] at hc
    exact .inl hc
  | begins exited =>
    obtain ⟨-, -, hreaps, -⟩ := begins_spec inUse hsound.kept hstep
    obtain ⟨jobId, entry, hentry, hmem⟩ := mem_taken.mp hc
    exact .inl (mem_taken.mpr ⟨jobId, entry, hreaps.back jobId entry hentry, hmem⟩)
  | launches clock now =>
    have hlisted := step_listed hsound hstep (.inl ⟨clock, now, rfl⟩)
    obtain ⟨-, -, -, -, htaken, -⟩ := launches_spec hsound.kept hlisted hstep
    exact (htaken c hc).imp_right fun h => ⟨clock, now, rfl, h⟩
  | preempts now =>
    obtain ⟨-, -, -, hrunning, -⟩ := preempts_spec hsound.kept hstep
    rw [taken, hrunning] at hc
    exact .inl hc

/-- **No card somebody else is on is taken.** -/
theorem step_others {c : Uuid} (hc : c ∈ s.dispatcher.cards.shared) (hused : c ∈ inUse)
    (hfree : c ∉ s.taken) : c ∉ t.taken := by
  intro htaken
  rcases step_taken hsound hstep htaken with hin | ⟨clock, now, rfl, d, hd, hgiven⟩
  · exact hfree hin
  · have hlisted := step_listed hsound hstep (.inl ⟨clock, now, rfl⟩)
    obtain ⟨hdrops, hkept, hlisted', -⟩ := drops_spec inUse hsound.kept now
    have hshared : c ∈ (s.drops now).dispatcher.cards.shared := by
      rw [hdrops.same.cards]
      exact hc
    rcases plan_gives _ (pool_distinct stamp hkept (hlisted' hlisted)) d hd c hgiven
      with hfree' | hfree'
    · have howned := ((mem_ownedFree hkept (hlisted' hlisted)).mp hfree').1
      exact (List.nodup_append'.mp hkept.cards).2.2 howned hshared
    · exact ((mem_borrowable hkept (hlisted' hlisted)).mp hfree').2.1 hused

/-- **An attempt that is over stays so, until its cards are back.** -/
theorem step_leaves {jobId : JobId} {entry : Running}
    (hentry : s.dispatcher.running.get? jobId = some entry)
    (hleaving : Dispatcher.leaving s.jobs jobId entry = true) :
    (t.dispatcher.running.get? jobId = some entry ∧
      Dispatcher.leaving t.jobs jobId entry = true) ∨ ∀ c ∈ entry.gpus, c ∉ t.taken := by
  rcases (step_cases hsound hstep).2 with hadvances | ⟨hreaps, -⟩
  · exact .inl ⟨hadvances.entries jobId entry hentry, hadvances.leaves jobId entry hentry hleaving⟩
  rcases hreaps.entries jobId entry hentry with hstays | ⟨-, hgone⟩
  · exact .inl ⟨hstays, by rw [hreaps.jobs]; exact hleaving⟩
  · -- no other job is on one of its cards
    refine .inr fun c hc htaken => ?_
    obtain ⟨j, other, hother, hmem⟩ := mem_taken.mp htaken
    obtain rfl := hsound.kept.apart jobId j entry other c hentry (hreaps.back j other hother) hc hmem
    exact hgone (Dict.mem_keys.mpr ⟨other, hother⟩)

/-- **The cards stay enough**, and those that are free stay free, until the job is started. -/
theorem step_enough (hfronts : s.Fronts inUse r) {cards : List Uuid}
    (henough : s.Enough inUse r cards) (hwaits : r.jobId ∉ t.dispatcher.running.keys) :
    t.Enough inUse r cards ∧ ∀ c ∈ cards, c ∉ s.taken → c ∉ t.taken := by
  have hsame : Same s t := by
    rcases (step_cases hsound hstep).2 with hadvances | ⟨hreaps, -⟩
    · exact hadvances.same
    · exact hreaps.same
  have hfree : ∀ c ∈ cards, c ∉ s.taken → c ∉ t.taken := by
    intro c hc hnot htaken
    rcases step_taken hsound hstep htaken with hin | ⟨clock, now, rfl, d, hd, hgiven⟩
    · exact hnot hin
    · have hlisted := step_listed hsound hstep (.inl ⟨clock, now, rfl⟩)
      obtain ⟨-, hkept, hlisted', -⟩ := drops_spec inUse hsound.kept now
      obtain ⟨henough', htakenSame⟩ := henough.drops hsound.kept now
      obtain ⟨-, -, -, -, -, hstarted⟩ := launches_spec hsound.kept hlisted hstep
      rcases henough'.kept_or_started stamp hkept (hlisted' hlisted)
        (hfronts.drops hsound.kept now) with ⟨gpus, heldFor, hassigned⟩ | ⟨hkeeps, -⟩
      · exact hwaits (hstarted r.jobId gpus heldFor hassigned)
      · exact hkeeps c hc (by rwa [htakenSame]) d hd hgiven
  refine ⟨⟨henough.once, henough.many, fun c hc => ?_, fun c hc => ?_⟩, hfree⟩
  · have huse := henough.usable c hc
    unfold Usable at huse ⊢
    rwa [hsame.cards]
  · rcases henough.back c hc with hnot | ⟨jobId, entry, hentry, hleaving, hmem⟩
    · exact .inl (hfree c hc hnot)
    · rcases step_leaves hsound hstep hentry hleaving with ⟨hentry', hleaving'⟩ | hback
      · exact .inr ⟨jobId, entry, hentry', hleaving', hmem⟩
      · exact .inl (hback c hmem)

end Step

/-- **Once they are all free, the job at the front is started.** -/
theorem launches_front (hsound : Sound inUse s) (hfronts : s.Fronts inUse r) {cards : List Uuid}
    (henough : s.Enough inUse r cards) (hfree : ∀ c ∈ cards, c ∉ s.taken) {clock : Seconds}
    {now : String} (hstep : s.step stamp inUse (.launches clock now) = some t) :
    r.jobId ∈ t.dispatcher.running.keys := by
  have hlisted := step_listed hsound hstep (.inl ⟨clock, now, rfl⟩)
  obtain ⟨-, hkept, hlisted', -⟩ := drops_spec inUse hsound.kept now
  obtain ⟨henough', htakenSame⟩ := henough.drops hsound.kept now
  obtain ⟨-, -, -, -, -, hstarted⟩ := launches_spec hsound.kept hlisted hstep
  rcases henough'.kept_or_started stamp hkept (hlisted' hlisted)
    (hfronts.drops hsound.kept now) with ⟨gpus, heldFor, hassigned⟩ | ⟨-, c, hc, htaken⟩
  · exact hstarted r.jobId gpus heldFor hassigned
  · rw [htakenSame] at htaken
    exact absurd htaken (hfree c hc)

end Service

end Gpuc.Host
