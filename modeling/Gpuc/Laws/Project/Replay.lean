import Gpuc.Host.Project
import Gpuc.Laws.Plan.Walk

/-!
# What a round of the replay keeps

The replay moves jobs between the queue and the jobs that may be stopped, and cards between the times
they come free. `Sound` is what no step of it breaks: every job is one of the question's, pending or to
be stopped but not both, and the cards are distinct. The launches of a round are read off the decisions
(`launched_eq`), and can be made in turn because the pass hands every card out once (`launchable`).
-/

set_option autoImplicit false

namespace Gpuc.Host

open Gpuc.Basis

/-- **What `project` is asked about**: a queue in dispatch order, cards that are distinct, and running
jobs that hold cards of the host and are queued again at their own place. A job is queued or running,
and is there once. -/
structure Question (requests : List Request) (cards : List Card)
    (running : List (Preemptable × Request)) : Prop where
  sorted : requests.Pairwise (fun a b => a.key ≤ b.key)
  ids : ((requests ++ running.map Prod.snd).map Request.jobId).Nodup
  uuids : (cards.map Card.uuid).Nodup
  among : ∀ p ∈ running, ∀ c ∈ p.1.gpus, c ∈ cards.map Card.uuid
  again : ∀ p ∈ running, p.2.key = p.1.key

namespace Replay

/-! ## Releasing cards -/

section Release
variable (s : Replay) (gpus : List Uuid) (time : Option Seconds)

@[simp] theorem release_clock : (s.release gpus time).clock = s.clock := rfl

@[simp] theorem release_stoppable : (s.release gpus time).stoppable = s.stoppable := rfl

@[simp] theorem release_uuids : (s.release gpus time).cards.map Card.uuid = s.cards.map Card.uuid := by
  show (s.cards.map _).map Card.uuid = _
  rw [List.map_map]
  refine List.map_congr_left fun card _ => ?_
  by_cases h : card.uuid ∈ gpus <;> simp [h]

@[simp] theorem release_isShared : (s.release gpus time).isShared = s.isShared := by
  funext uuid
  show (s.cards.map _).any _ = s.cards.any _
  rw [List.any_map]
  congr 1
  funext card
  by_cases h : card.uuid ∈ gpus <;> simp [h]

end Release

/-! ## The jobs a round launches -/

end Replay

/-- The requests of a pass that are assigned cards, with the cards. -/
def launches : List Request → List Decision → List (Request × List Uuid)
  | r :: rs, .assigned _ gpus _ :: ds => (r, gpus) :: launches rs ds
  | _ :: rs, .holds .. :: ds => launches rs ds
  | _ :: rs, .steppedOver .. :: ds => launches rs ds
  | _ :: rs, .fails .. :: ds => launches rs ds
  | _, _ => []

theorem mem_launches {r : Request} {gpus : List Uuid} {rs : List Request} {ds : List Decision}
    (h : (r, gpus) ∈ launches rs ds) :
    r ∈ rs ∧ ∃ d ∈ ds, d.gpus = gpus := by
  induction rs generalizing ds with
  | nil => cases ds <;> exact absurd h List.not_mem_nil
  | cons q rs ih =>
    cases ds with
    | nil => exact absurd h List.not_mem_nil
    | cons d ds =>
      have hrest : (r, gpus) ∈ launches rs ds → r ∈ q :: rs ∧ ∃ d' ∈ d :: ds, d'.gpus = gpus :=
        fun h => (ih h).imp (List.mem_cons_of_mem q)
          fun ⟨d', hd', hg⟩ => ⟨d', List.mem_cons_of_mem d hd', hg⟩
      cases d with
      | assigned jobId cards heldFor =>
        rcases List.mem_cons.mp h with heq | h
        · obtain ⟨rfl, rfl⟩ := Prod.mk.inj heq
          exact ⟨List.mem_cons_self, _, List.mem_cons_self, rfl⟩
        · exact hrest h
      | _ => exact hrest h

theorem launches_sublist (rs : List Request) (ds : List Decision) :
    ((launches rs ds).map Prod.fst).Sublist rs := by
  induction rs generalizing ds with
  | nil => cases ds <;> exact .refl []
  | cons r rs ih =>
    cases ds with
    | nil => exact List.nil_sublist _
    | cons d ds =>
      cases d with
      | assigned => exact (ih ds).cons_cons r
      | _ => exact (ih ds).cons r

/-- The cards of a pass's launches are apart when its decisions' are. -/
theorem launches_apart {rs : List Request} {ds : List Decision}
    (h : ds.Pairwise (fun d e => d.gpus.Disjoint e.gpus)) :
    (launches rs ds).Pairwise (fun a b => a.2.Disjoint b.2) := by
  induction rs generalizing ds with
  | nil => cases ds <;> exact .nil
  | cons r rs ih =>
    cases ds with
    | nil => exact .nil
    | cons d ds =>
      cases d with
      | assigned jobId cards heldFor =>
        refine List.pairwise_cons.mpr ⟨fun ⟨q, gpus⟩ hb => ?_, ih h.of_cons⟩
        obtain ⟨-, e, he, hg⟩ := mem_launches hb
        exact hg ▸ List.rel_of_pairwise_cons h he
      | _ => exact ih h.of_cons

namespace Replay

/-- Every launch in turn. -/
def launchAll (s : Replay) (ls : List (Request × List Uuid)) : Replay :=
  ls.foldl (fun s l => s.start l.1 l.2) s

/-- Starting what a pass assigned is starting its launches in turn. -/
theorem startAll_eq (byId : Dict JobId Request) (s : Replay) (w : Walk) {rs : List Request}
    (hbyId : ∀ r ∈ rs, byId.get? r.jobId = some r) :
    s.startAll byId (planFrom w rs).1 = s.launchAll (launches rs (planFrom w rs).1) := by
  induction rs generalizing s w with
  | nil => rfl
  | cons r rs ih =>
    have hrest : ∀ q ∈ rs, byId.get? q.jobId = some q := fun q hq =>
      hbyId q (List.mem_cons_of_mem r hq)
    have hjob := (Walk.turned w r).jobId
    rw [planFrom_cons]
    generalize (w.turn r).1 = d at hjob
    cases d with
    | assigned jobId cards heldFor =>
      obtain rfl : jobId = r.jobId := hjob
      simp only [startAll, launches, hbyId r List.mem_cons_self]
      exact ih _ _ hrest
    | _ => exact ih _ _ hrest

/-! ## The fields a launch and a stop write -/

section Start
variable (s : Replay) (r : Request) (gpus : List Uuid)

/-- When a job that starts now ends. -/
def doneAt : Option Seconds := r.estimateS.map (s.clock + ·)

/-- What the replay keeps of a job that starts and may be stopped. -/
def started : Stoppable where
  job :=
    { jobId := r.jobId
      priority := r.priority
      gpus := gpus
      started := s.clock
      owned := gpus.length - gpus.countP s.isShared
      borrowed := gpus.countP s.isShared }
  again := r
  ends := s.doneAt r

@[simp] theorem start_cards : (s.start r gpus).cards = (s.release gpus (s.doneAt r)).cards := rfl

@[simp] theorem start_clock : (s.start r gpus).clock = s.clock := rfl

@[simp] theorem start_pending : (s.start r gpus).pending = s.pending.erase r := rfl

@[simp] theorem start_starts :
    (s.start r gpus).starts = s.starts.setDefault r.jobId s.clock := rfl

@[simp] theorem start_decisions : (s.start r gpus).decisions = s.decisions := rfl

theorem start_stoppable :
    (s.start r gpus).stoppable
      = if r.fills ∧ gpus ≠ [] then s.stoppable.set r.jobId (s.started r gpus)
        else s.stoppable := rfl

@[simp] theorem start_uuids : (s.start r gpus).cards.map Card.uuid = s.cards.map Card.uuid :=
  release_uuids s gpus _

@[simp] theorem start_isShared : (s.start r gpus).isShared = s.isShared :=
  release_isShared s gpus _

end Start

section Stop
variable {s : Replay} {jobId : JobId} {entry : Stoppable}

theorem stop_eq (h : s.stoppable.get? jobId = some entry) :
    s.stop jobId = { s.release entry.job.gpus (some s.clock) with
      stoppable := s.stoppable.erase jobId
      pending := s.pending ++ [entry.again] } := by
  rw [stop, h]

theorem stop_eq_none (h : s.stoppable.get? jobId = none) : s.stop jobId = s := by
  rw [stop, h]

theorem stop_uuids : (s.stop jobId).cards.map Card.uuid = s.cards.map Card.uuid := by
  cases h : s.stoppable.get? jobId with
  | none => rw [stop_eq_none h]
  | some entry => rw [stop_eq h]; exact release_uuids s _ _

theorem stop_isShared : (s.stop jobId).isShared = s.isShared := by
  cases h : s.stoppable.get? jobId with
  | none => rw [stop_eq_none h]
  | some entry => rw [stop_eq h]; exact release_isShared s _ _

theorem stop_clock : (s.stop jobId).clock = s.clock := by
  cases h : s.stoppable.get? jobId with
  | none => rw [stop_eq_none h]
  | some entry => rw [stop_eq h]; rfl

end Stop

/-! ## The invariant -/

/-- **The replay's jobs are those it was asked about**, each pending or to be stopped but not both, and
the cards are distinct. -/
structure Sound (jobs : List Request) (s : Replay) : Prop where
  ids : (s.pending.map Request.jobId).Nodup
  pending : ∀ r ∈ s.pending, r ∈ jobs
  named : ∀ jobId entry, s.stoppable.get? jobId = some entry → entry.job.jobId = jobId
  again : ∀ jobId entry, s.stoppable.get? jobId = some entry →
    entry.again ∈ jobs ∧ entry.again.key = entry.job.key
  among : ∀ jobId entry, s.stoppable.get? jobId = some entry →
    ∀ c ∈ entry.job.gpus, c ∈ s.cards.map Card.uuid
  apart : ∀ r ∈ s.pending, s.stoppable.get? r.jobId = none
  uuids : (s.cards.map Card.uuid).Nodup

theorem key_jobId {r : Request} {p : Preemptable} (h : r.key = p.key) : r.jobId = p.jobId :=
  (Prod.mk.inj (toLex.injective h)).2

namespace Sound
variable {jobs : List Request} {s : Replay}

/-- The job put back for a stoppable one has its id. -/
theorem again_jobId (h : Sound jobs s) {jobId : JobId} {entry : Stoppable}
    (hentry : s.stoppable.get? jobId = some entry) : entry.again.jobId = jobId :=
  (key_jobId (h.again jobId entry hentry).2).trans (h.named jobId entry hentry)

/-- Forgetting jobs that may be stopped. -/
theorem filter (h : Sound jobs s) (p : JobId → Stoppable → Bool) :
    Sound jobs { s with stoppable := s.stoppable.filter p } := by
  have hget : ∀ {jobId entry}, (s.stoppable.filter p).get? jobId = some entry →
      s.stoppable.get? jobId = some entry := fun hf => by
    rw [Dict.get?_filter, Option.filter_eq_some_iff] at hf
    exact hf.1
  exact
    { ids := h.ids
      pending := h.pending
      named := fun _ _ hf => h.named _ _ (hget hf)
      again := fun _ _ hf => h.again _ _ (hget hf)
      among := fun _ _ hf => h.among _ _ (hget hf)
      apart := fun r hr => by
        show (s.stoppable.filter p).get? r.jobId = none
        rw [Dict.get?_filter, h.apart r hr]
        rfl
      uuids := h.uuids }

/-- The replay plans a round. -/
theorem planned (h : Sound jobs s) (e : Elsewhere) : Sound jobs (s.planned e) :=
  { h.filter _ with }

/-- A pending job starts on cards of the host. -/
theorem start (h : Sound jobs s) {r : Request} {gpus : List Uuid} (hr : r ∈ s.pending)
    (hgpus : ∀ c ∈ gpus, c ∈ s.cards.map Card.uuid) : Sound jobs (s.start r gpus) := by
  have hids : (s.pending.erase r).Sublist s.pending := List.erase_sublist
  have hnodup : s.pending.Nodup := h.ids.of_map
  have hother : ∀ q ∈ s.pending.erase r, q ∈ s.pending ∧ q.jobId ≠ r.jobId := by
    intro q hq
    obtain ⟨hne, hq'⟩ := hnodup.mem_erase_iff.mp hq
    exact ⟨hq', fun heq => hne (List.inj_on_of_nodup_map h.ids hq' hr heq)⟩
  have hget : ∀ {jobId entry}, (s.start r gpus).stoppable.get? jobId = some entry →
      (jobId = r.jobId ∧ entry = s.started r gpus) ∨ s.stoppable.get? jobId = some entry := by
    intro jobId entry hentry
    rw [start_stoppable] at hentry
    split at hentry
    · rw [Dict.get?_set] at hentry
      split at hentry
      · next hj => exact .inl ⟨hj, (Option.some.inj hentry).symm⟩
      · exact .inr hentry
    · exact .inr hentry
  refine
    { ids := h.ids.sublist (hids.map _)
      pending := fun q hq => h.pending q (hother q hq).1
      named := ?_
      again := ?_
      among := ?_
      apart := ?_
      uuids := by rw [start_uuids]; exact h.uuids }
  · intro jobId entry hentry
    rcases hget hentry with ⟨rfl, rfl⟩ | hold
    · rfl
    · exact h.named _ _ hold
  · intro jobId entry hentry
    rcases hget hentry with ⟨rfl, rfl⟩ | hold
    · exact ⟨h.pending r hr, rfl⟩
    · exact h.again _ _ hold
  · intro jobId entry hentry
    rw [start_uuids]
    rcases hget hentry with ⟨rfl, rfl⟩ | hold
    · exact hgpus
    · exact h.among _ _ hold
  · intro q hq
    obtain ⟨hq', hne⟩ := hother q hq
    rw [start_stoppable]
    split
    · rw [Dict.get?_set, if_neg hne]
      exact h.apart q hq'
    · exact h.apart q hq'

/-- A job is stopped. -/
theorem stop (h : Sound jobs s) (jobId : JobId) : Sound jobs (s.stop jobId) := by
  cases hentry : s.stoppable.get? jobId with
  | none => rw [stop_eq_none hentry]; exact h
  | some entry =>
    have hid := h.again_jobId hentry
    have hget : ∀ {j e}, (s.stoppable.erase jobId).get? j = some e →
        s.stoppable.get? j = some e := fun he => by
      rw [Dict.get?_erase] at he
      split at he
      · cases he
      · exact he
    have hout : ∀ r ∈ s.pending, r.jobId ≠ jobId := fun r hr heq => by
      rw [← heq, h.apart r hr] at hentry
      cases hentry
    rw [stop_eq hentry]
    refine
      { ids := ?_
        pending := ?_
        named := fun _ _ he => h.named _ _ (hget he)
        again := fun _ _ he => h.again _ _ (hget he)
        among := fun _ _ he c hc => by
          rw [release_uuids]
          exact h.among _ _ (hget he) c hc
        apart := ?_
        uuids := by rw [release_uuids]; exact h.uuids }
    · show ((s.pending ++ [entry.again]).map Request.jobId).Nodup
      rw [List.map_append]
      refine h.ids.append (List.nodup_singleton _) fun j hj hlast => ?_
      obtain ⟨r, hr, rfl⟩ := List.mem_map.mp hj
      exact hout r hr ((List.mem_singleton.mp hlast).trans hid)
    · intro r hr
      rcases List.mem_append.mp hr with hr | hr
      · exact h.pending r hr
      · exact List.mem_singleton.mp hr ▸ (h.again _ _ hentry).1
    · intro r hr
      show (s.stoppable.erase jobId).get? r.jobId = none
      rw [Dict.get?_erase]
      rcases List.mem_append.mp hr with hr | hr
      · rw [if_neg (hout r hr)]
        exact h.apart r hr
      · rw [List.mem_singleton.mp hr, if_pos hid]

/-- The queue is put in order. -/
theorem sort (h : Sound jobs s) :
    Sound jobs { s with pending := sortedBy Request.key s.pending } :=
  { h with
    ids := ((sortedBy_perm Request.key s.pending).map Request.jobId).nodup_iff.mpr h.ids
    pending := fun r hr => h.pending r (mem_sortedBy.mp hr)
    apart := fun r hr => h.apart r (mem_sortedBy.mp hr) }

/-- The clock moves. -/
theorem tick (h : Sound jobs s) (next : Seconds) : Sound jobs { s with clock := next } :=
  { h with }

theorem stopAll (h : Sound jobs s) (jobIds : List JobId) : Sound jobs (s.stopAll jobIds) := by
  have hfold : ∀ s, Sound jobs s → Sound jobs (jobIds.foldl Replay.stop s) := by
    induction jobIds with
    | nil => exact fun _ hs => hs
    | cons j js ih => exact fun s hs => ih _ (hs.stop j)
  exact (hfold s h).sort

end Sound

/-! ## The pool of a round -/

/-- The card with this name is free now. -/
def IsFree (s : Replay) (uuid : Uuid) : Prop :=
  ∃ card ∈ s.cards, card.uuid = uuid ∧ card.freeBy s.clock = true

section Pool
variable (s : Replay) (e : Elsewhere)

theorem mem_pool_owned {c : Uuid} :
    c ∈ (s.pool e).ownedFree
      ↔ ∃ card ∈ s.cards, card.uuid = c ∧ card.freeBy s.clock = true ∧ card.shared = false := by
  simp only [pool, free, List.mem_map, List.mem_filter, Bool.not_eq_true']
  exact ⟨fun ⟨card, ⟨⟨hc, hf⟩, hs⟩, hu⟩ => ⟨card, hc, hu, hf, hs⟩,
    fun ⟨card, hc, hu, hf, hs⟩ => ⟨card, ⟨⟨hc, hf⟩, hs⟩, hu⟩⟩

theorem mem_pool_shared {c : Uuid} :
    c ∈ (s.pool e).borrowable.1
      ↔ ∃ card ∈ s.cards, card.uuid = c ∧ card.freeBy s.clock = true ∧ card.shared = true := by
  have hread : (s.pool e).borrowable.1
      = (s.free.filter fun card => card.shared).map Card.uuid := rfl
  simp only [hread, free, List.mem_map, List.mem_filter]
  exact ⟨fun ⟨card, ⟨⟨hc, hf⟩, hs⟩, hu⟩ => ⟨card, hc, hu, hf, hs⟩,
    fun ⟨card, hc, hu, hf, hs⟩ => ⟨card, ⟨⟨hc, hf⟩, hs⟩, hu⟩⟩

theorem isFree_of_pool {c : Uuid}
    (h : c ∈ (s.pool e).ownedFree ∨ c ∈ (s.pool e).borrowable.1) : s.IsFree c := by
  rcases h with h | h
  · obtain ⟨card, hc, hu, hf, -⟩ := (mem_pool_owned s e).mp h
    exact ⟨card, hc, hu, hf⟩
  · obtain ⟨card, hc, hu, hf, -⟩ := (mem_pool_shared s e).mp h
    exact ⟨card, hc, hu, hf⟩

theorem pool_distinct (huuids : (s.cards.map Card.uuid).Nodup) : (s.pool e).Distinct := by
  have hsub : ∀ p : Card → Bool, ((s.free.filter p).map Card.uuid).Nodup := fun p =>
    ((List.filter_sublist.trans List.filter_sublist).map Card.uuid).nodup huuids
  refine ⟨hsub _, hsub _, fun c ho hs => ?_⟩
  obtain ⟨card, hc, hu, -, hown⟩ := (mem_pool_owned s e).mp ho
  obtain ⟨card', hc', hu', -, hshared⟩ := (mem_pool_shared s e).mp hs
  obtain rfl : card = card' := List.inj_on_of_nodup_map huuids hc hc' (hu.trans hu'.symm)
  rw [hown] at hshared
  cases hshared

end Pool

end Replay

/-- **What a walk launches**: each job on exactly the cards it asked for, all of them on offer. -/
theorem launches_exact {w : Walk} (hpool : w.pool.Distinct) (rs : List Request) :
    ∀ l ∈ launches rs (planFrom w rs).1, l.2.length = l.1.gpus ∧ l.2.Nodup ∧
      ∀ c ∈ l.2, c ∈ w.pool.ownedFree ∨ c ∈ w.pool.borrowable.1 := by
  induction rs generalizing w with
  | nil => intro l hl; exact absurd hl List.not_mem_nil
  | cons r rs ih =>
    have hturned := Walk.turned w r
    have hspent := hturned.spent
    have hrest : ∀ l ∈ launches rs (planFrom (w.turn r).2 rs).1, l.2.length = l.1.gpus ∧
        l.2.Nodup ∧ ∀ c ∈ l.2, c ∈ w.pool.ownedFree ∨ c ∈ w.pool.borrowable.1 := by
      intro l hl
      obtain ⟨hlength, hnodup, hfree⟩ := ih (hspent.distinct hpool) l hl
      exact ⟨hlength, hnodup, fun c hc => (hfree c hc).imp (fun h => hspent.owned.subset h)
        fun h => hspent.shared.subset h⟩
    rw [planFrom_cons]
    generalize (w.turn r).1 = d at hturned
    cases d with
    | assigned jobId cards heldFor =>
      refine List.forall_mem_cons.mpr ⟨?_, hrest⟩
      obtain ⟨hlength, hnodup⟩ := hturned.exact hpool
      exact ⟨hlength, hnodup, fun c hc => (hturned.gives hpool hc).1⟩
    | _ => exact hrest

namespace Replay

/-- **The launches of a round can all be made**: of pending jobs, each on free cards of its own. -/
structure Launchable (s : Replay) (ls : List (Request × List Uuid)) : Prop where
  pending : (ls.map Prod.fst).Sublist s.pending
  nodup : ∀ l ∈ ls, l.2.Nodup
  free : ∀ l ∈ ls, ∀ c ∈ l.2, s.IsFree c
  apart : ls.Pairwise (fun a b => a.2.Disjoint b.2)

theorem IsFree.mem_uuids {s : Replay} {c : Uuid} (h : s.IsFree c) :
    c ∈ s.cards.map Card.uuid := by
  obtain ⟨card, hc, hu, -⟩ := h
  exact List.mem_map.mpr ⟨card, hc, hu⟩

/-- A card that is not released keeps its time. -/
theorem mem_release {s : Replay} {gpus : List Uuid} {time : Option Seconds} {card : Card}
    (hcard : card ∈ s.cards) (h : card.uuid ∉ gpus) : card ∈ (s.release gpus time).cards :=
  List.mem_map.mpr ⟨card, hcard, if_neg h⟩

theorem IsFree.start {s : Replay} {c : Uuid} (h : s.IsFree c) (r : Request) {gpus : List Uuid}
    (hc : c ∉ gpus) : (s.start r gpus).IsFree c := by
  obtain ⟨card, hcard, rfl, hfree⟩ := h
  exact ⟨card, mem_release hcard hc, rfl, hfree⟩

/-- Once the first launch is made, the others can be. -/
theorem Launchable.tail {s : Replay} {l : Request × List Uuid} {ls : List (Request × List Uuid)}
    (h : Launchable s (l :: ls)) : Launchable (s.start l.1 l.2) ls := by
  have hpending := h.pending.erase l.1
  rw [List.map_cons, List.erase_cons_head] at hpending
  refine ⟨hpending, fun m hm => h.nodup m (List.mem_cons_of_mem l hm), fun m hm c hc => ?_,
    h.apart.of_cons⟩
  exact (h.free m (List.mem_cons_of_mem l hm) c hc).start l.1 fun hl =>
    List.rel_of_pairwise_cons h.apart hm hl hc

/-- **What every launch keeps, a round's launches keep.** -/
theorem Launchable.induct {motive : Replay → Prop} {s : Replay}
    {ls : List (Request × List Uuid)} (h : Launchable s ls) (hs : motive s)
    (hstart : ∀ s r gpus, motive s → r ∈ s.pending → gpus.Nodup → (∀ c ∈ gpus, s.IsFree c) →
      motive (s.start r gpus)) : motive (s.launchAll ls) := by
  induction ls generalizing s with
  | nil => exact hs
  | cons l ls ih =>
    exact ih h.tail (hstart s l.1 l.2 hs (h.pending.subset List.mem_cons_self)
      (h.nodup l List.mem_cons_self) (h.free l List.mem_cons_self))

/-- The launches of a round. -/
def roundLaunches (s : Replay) (e : Elsewhere) : List (Request × List Uuid) :=
  launches s.pending (s.planned e).decisions

theorem launched_eq {jobs : List Request} {s : Replay} (h : Sound jobs s) (e : Elsewhere) :
    s.launched e = (s.planned e).launchAll (s.roundLaunches e) := by
  refine startAll_eq _ _ _ fun r hr => ?_
  refine (Dict.get?_ofList ?_).mpr (List.mem_map_of_mem hr)
  rw [List.map_map]
  exact h.ids

theorem launchable {jobs : List Request} {s : Replay} (h : Sound jobs s) (e : Elsewhere) :
    Launchable (s.planned e) (s.roundLaunches e) := by
  have hpool := pool_distinct { s with stoppable := s.current } e h.uuids
  have hexact := launches_exact (w := Walk.start _) hpool s.pending
  exact ⟨launches_sublist _ _, fun l hl => (hexact l hl).2.1,
    fun l hl c hc => isFree_of_pool _ e ((hexact l hl).2.2 c hc),
    launches_apart (plan_disjoint s.pending hpool).1⟩

theorem Sound.launched {jobs : List Request} {s : Replay} (h : Sound jobs s) (e : Elsewhere) :
    Sound jobs (s.launched e) := by
  rw [launched_eq h e]
  refine (launchable h e).induct (h.planned e) fun s r gpus hs hr _ hfree => ?_
  exact hs.start hr fun c hc => (hfree c hc).mem_uuids

end Replay

end Gpuc.Host
