import Gpuc.Laws.Project.Terminates

/-!
# What the answer says of each queued job

A job is in the answer or it says why not. Every queued job is in one of the two, and both are about
queued jobs only (`Told`). But a start is recorded once and stays, and a filler that was started can be
stopped for a job ahead of it and be waiting again when the replay ends: then it is in both.

The law (`project_answers_iff`): no job is in both exactly when, as the last round begins, each queued
job that has a start already finds at its turn as many free cards it may use as it asks for. Such a job
is a filler, and by the last round nothing is covered, so every free card is open to it. Without
fillers in the queue the condition asks nothing (`restarts_of_noFillers`); with one it can fail
(`filler_in_both`).
-/

set_option autoImplicit false

namespace Gpuc.Host

open Gpuc.Basis

/-- The decision starts its job. -/
def Decision.assigns : Decision → Bool
  | .assigned .. => true
  | .holds .. | .steppedOver .. | .fails .. => false

/-! ## Who is told why -/

theorem reasonFor_isSome (holder : Option JobId) (d : Decision) :
    (reasonFor holder d).isSome = !d.assigns := by
  cases d with
  | holds => cases holder <;> rfl
  | _ => rfl

/-- **The reasons are those of the queued jobs that are not started.** -/
theorem mem_unknownReasons {queued : List JobId} {ds : List Decision} {holder : Option JobId}
    {reasons : Dict JobId String} {j : JobId} :
    j ∈ (unknownReasons queued ds holder reasons).keys
      ↔ j ∈ reasons.keys ∨ (j ∈ queued ∧ ∃ d ∈ ds, d.jobId = j ∧ d.assigns = false) := by
  induction ds generalizing holder reasons with
  | nil => simp [unknownReasons]
  | cons d ds ih =>
    have hreason := reasonFor_isSome holder d
    simp only [unknownReasons, List.exists_mem_cons_iff]
    by_cases hqueued : d.jobId ∈ queued
    · rw [if_neg (not_not.mpr hqueued), ih]
      cases hreasonFor : reasonFor holder d with
      | some reason =>
        rw [hreasonFor, Option.isSome_some] at hreason
        have hassigns : d.assigns = false := by simpa using hreason.symm
        rw [Dict.mem_keys_set]
        constructor
        · rintro ((rfl | hj) | ⟨hj, hd⟩)
          · exact .inr ⟨hqueued, .inl ⟨rfl, hassigns⟩⟩
          · exact .inl hj
          · exact .inr ⟨hj, .inr hd⟩
        · rintro (hj | ⟨hj, ⟨rfl, -⟩ | hd⟩)
          · exact .inl (.inr hj)
          · exact .inl (.inl rfl)
          · exact .inr ⟨hj, hd⟩
      | none =>
        rw [hreasonFor, Option.isSome_none] at hreason
        have hassigns : d.assigns = true := by simpa using hreason.symm
        simp [hassigns]
    · rw [if_pos hqueued, ih]
      constructor
      · rintro (hj | ⟨hj, hd⟩)
        · exact .inl hj
        · exact .inr ⟨hj, .inr hd⟩
      · rintro (hj | ⟨hj, ⟨rfl, -⟩ | hd⟩)
        · exact .inl hj
        · exact absurd hj hqueued
        · exact .inr ⟨hj, hd⟩

/-! ## Who has a start -/

namespace Replay

/-- **Every queued job is pending or has a start**, and one that is both may be stopped: it fills, or
was running from the first. -/
structure Told (requests : List Request) (already : List JobId) (s : Replay) : Prop where
  kept : ∀ r ∈ requests, r ∈ s.pending ∨ r.jobId ∈ s.starts.keys
  ours : ∀ j ∈ s.starts.keys, j ∈ already ∨ j ∈ requests.map Request.jobId
  again : ∀ jobId entry, s.stoppable.get? jobId = some entry →
    jobId ∈ already ∨ entry.again.fills = true
  fills : ∀ r ∈ s.pending, r.jobId ∈ s.starts.keys → r.jobId ∈ already ∨ r.fills = true

namespace Told
variable {requests jobs : List Request} {already : List JobId} {s : Replay}

theorem planned (h : Told requests already s) (e : Elsewhere) :
    Told requests already (s.planned e) :=
  { h with
    again := fun jobId entry hget => by
      have hget' : s.current.get? jobId = some entry := hget
      rw [current_eq, Dict.get?_filter, Option.filter_eq_some_iff] at hget'
      exact h.again jobId entry hget'.1 }

/-- A pending job starts. -/
theorem start (h : Told requests already s) (hs : Sound jobs s)
    (hjobs : ∀ r ∈ jobs, r.jobId ∈ already ∨ r.jobId ∈ requests.map Request.jobId) {r : Request}
    (hr : r ∈ s.pending) (gpus : List Uuid) : Told requests already (s.start r gpus) := by
  have hother : ∀ q ∈ s.pending.erase r, q ∈ s.pending ∧ q.jobId ≠ r.jobId := by
    intro q hq
    obtain ⟨hne, hq'⟩ := (List.Nodup.of_map _ hs.ids).mem_erase_iff.mp hq
    exact ⟨hq', fun heq => hne (List.inj_on_of_nodup_map hs.ids hq' hr heq)⟩
  refine ⟨fun q hq => ?_, fun j hj => ?_, fun jobId entry hget => ?_, fun q hq hj => ?_⟩
  · rw [start_pending, start_starts, Dict.mem_keys_setDefault]
    by_cases heq : q = r
    · exact .inr (.inl (congrArg Request.jobId heq))
    · exact (h.kept q hq).imp (fun hin => (List.mem_erase_of_ne heq).mpr hin) .inr
  · rw [start_starts, Dict.mem_keys_setDefault] at hj
    rcases hj with rfl | hj
    · exact hjobs r (hs.pending r hr)
    · exact h.ours j hj
  · rw [start_stoppable] at hget
    split at hget
    · next hfills =>
      rw [Dict.get?_set] at hget
      split at hget
      · obtain rfl := Option.some.inj hget
        exact .inr hfills.1
      · exact h.again jobId entry hget
    · exact h.again jobId entry hget
  · obtain ⟨hq', hne⟩ := hother q hq
    rw [start_starts, Dict.mem_keys_setDefault] at hj
    exact h.fills q hq' (hj.resolve_left hne)

/-- A job is stopped and queued again. -/
theorem stop (h : Told requests already s) (hs : Sound jobs s) (jobId : JobId) :
    Told requests already (s.stop jobId) := by
  cases hentry : s.stoppable.get? jobId with
  | none => rw [stop_eq_none hentry]; exact h
  | some entry =>
    rw [stop_eq hentry]
    refine ⟨fun q hq => ?_, h.ours, fun j f hget => ?_, fun q hq hj => ?_⟩
    · exact (h.kept q hq).imp (List.mem_append_left _) id
    · rw [Dict.get?_erase] at hget
      split at hget
      · cases hget
      · exact h.again j f hget
    · rcases List.mem_append.mp hq with hq | hq
      · exact h.fills q hq hj
      · obtain rfl := List.mem_singleton.mp hq
        rw [hs.again_jobId hentry]
        exact h.again jobId entry hentry

variable (hjobs : ∀ r ∈ jobs, r.jobId ∈ already ∨ r.jobId ∈ requests.map Request.jobId)
include hjobs

theorem launched (h : Told requests already s) (hs : Sound jobs s) (e : Elsewhere) :
    Told requests already (s.launched e) := by
  rw [launched_eq hs e]
  refine ((launchable hs e).induct (motive := fun t => Sound jobs t ∧ Told requests already t)
    ⟨hs.planned e, h.planned e⟩ ?_).2
  intro t r gpus ⟨ht, htold⟩ hr _ hfree
  exact ⟨ht.start hr fun c hc => (hfree c hc).mem_uuids, htold.start ht hjobs hr gpus⟩

/-- **A round keeps it.** -/
theorem next (h : Told requests already s) (hs : Sound jobs s) (e : Elsewhere) {next : Replay}
    (hround : s.round e = (next, true)) : Told requests already next := by
  have hlaunched := h.launched hjobs hs e
  rcases round_cases hs e hround with ⟨-, rfl⟩ | ⟨time, -, rfl⟩
  · have hfold : ∀ (jobIds : List JobId) (t : Replay), Sound jobs t → Told requests already t →
        Told requests already (jobIds.foldl Replay.stop t) := by
      intro jobIds
      induction jobIds with
      | nil => exact fun _ _ ht => ht
      | cons j js ih => exact fun t ht htold => ih _ (ht.stop j) (htold.stop ht j)
    have hstopped := hfold (stuckPreempts (s.planned e).decisions) _ (hs.launched e) hlaunched
    exact
      { hstopped with
        kept := fun r hr => (hstopped.kept r hr).imp (fun hin => mem_sortedBy.mpr hin) id
        fills := fun r hr => hstopped.fills r (mem_sortedBy.mp hr) }
  · exact { hlaunched with }

end Told

/-! ## The last round -/

/-- The state the last round begins with: nothing pending, or nothing to come after it. -/
def lastRound (e : Elsewhere) : Nat → Replay → Option Replay
  | 0, _ => none
  | fuel + 1, s =>
    if s.pending = [] then some s
    else
      match s.round e with
      | (next, true) => lastRound e fuel next
      | (_, false) => some s

/-- **What every round keeps holds when the last one begins.** -/
theorem lastRound_induct {motive : Replay → Prop} {e : Elsewhere} {s last : Replay} {fuel : Nat}
    (hs : motive s)
    (hround : ∀ s next, motive s → s.round e = (next, true) → motive next)
    (hrun : s.run e fuel = some last) :
    ∃ t, s.lastRound e fuel = some t ∧ motive t ∧
      ((t.pending = [] ∧ last = t) ∨ (t.pending ≠ [] ∧ t.round e = (last, false))) := by
  induction fuel generalizing s with
  | zero => cases hrun
  | succ fuel ih =>
    rw [run] at hrun
    rw [lastRound]
    by_cases hdone : s.pending = []
    · rw [if_pos hdone] at hrun ⊢
      exact ⟨s, rfl, hs, .inl ⟨hdone, (Option.some.inj hrun).symm⟩⟩
    · rw [if_neg hdone] at hrun ⊢
      cases houtcome : s.round e with
      | mk next more =>
        rw [houtcome] at hrun
        cases more with
        | true => exact ih (hround s next hs houtcome) hrun
        | false =>
          obtain rfl := Option.some.inj hrun
          exact ⟨s, rfl, hs, .inr ⟨hdone, houtcome⟩⟩

end Replay

/-! ## A filler's turn when nothing is covered -/

/-- The free cards left for a request that may use them, whoever they are held for. -/
def Walk.freeCards (w : Walk) (r : Request) : Nat :=
  w.pool.ownedFree.length + if r.borrows then w.pool.borrowable.1.length else 0

namespace Walk
variable {w : Walk} {r : Request}

/-- A job that is started is started on free cards. -/
theorem freeCards_of_assigns (hpool : w.pool.Distinct) (h : (w.turn r).1.assigns = true) :
    r.gpus ≤ w.freeCards r := by
  have hturned := turned w r
  generalize (w.turn r).1 = d at h hturned
  cases d with
  | assigned jobId cards heldFor =>
    obtain ⟨hlength, hnodup⟩ := hturned.exact hpool
    have hsub : cards ⊆ w.pool.ownedFree ++ if r.borrows then w.pool.borrowable.1 else [] := by
      intro c hc
      cases hborrows : r.borrows with
      | false => exact List.mem_append_left _ (hturned.ownedOnly hborrows hc)
      | true => exact List.mem_append.mpr (hturned.gives hpool hc).1
    have hle := (List.subperm_of_subset hnodup hsub).length_le
    rw [hlength, List.length_append] at hle
    rw [freeCards]
    cases hborrows : r.borrows <;> simpa [hborrows] using hle
  | holds => cases h
  | steppedOver => cases h
  | fails => cases h

/-- Every free card is open to a filler when nothing is covered. -/
theorem length_openFor (hcovered : ∀ job, job ∉ w.covered) :
    (w.openFor r).length = w.freeCards r := by
  have hopen : ∀ cards : List Uuid, cards.filter w.openToIt = cards := fun cards =>
    List.filter_eq_self.mpr fun c _ => openToIt_iff.mpr fun job _ => hcovered job
  rw [openFor, freeCards, hopen, hopen, List.length_append, length_sortedBy]
  cases r.borrows <;> simp

/-- **A filler is started on the free cards there are**, when nothing is covered and nothing is on its
way back. -/
theorem assigns_of_freeCards (hcovered : ∀ job, job ∉ w.covered) (hcoming : w.pool.coming = [])
    (hfills : r.fills = true) (hcap : w.failureFor r = none)
    (hours : (w.freeCards r : Int) ≤ w.pool.oursFor r) (h : r.gpus ≤ w.freeCards r) :
    (w.turn r).1.assigns = true := by
  have hturned := turned w r
  generalize hd : (w.turn r).1 = d at hturned ⊢
  generalize hafter : (w.turn r).2 = after at hturned
  cases hturned with
  | fails hfails => rw [hcap] at hfails; cases hfails
  | fits => rfl
  | passed _ hfree hfew =>
    rw [oursFor_of_short hfree] at hfew
    rw [Pool.oursFor] at hours
    omega
  | fills => rfl
  | waits _ hfree _ hfill =>
    have hshort : w.shortFor r ≠ 0 := by
      rw [shortFor_of_noneComing hcoming]
      omega
    have hnone := hfill hfills hshort
    have hlength : ((w.readFor r).openFor r).length = w.freeCards r := by
      rw [length_openFor (by rw [readFor_covered]; exact hcovered), freeCards, freeCards,
        readFor_ownedFree, readFor_borrowable]
    have henough : ¬ (((w.readFor r).openFor r).take r.gpus).length < r.gpus := by
      rw [List.length_take, hlength]
      omega
    simp only [fill, if_neg henough] at hnone
    cases hnone

end Walk

theorem capacityFailure_eq_none {gpus owned shared : Nat} {borrows : Bool} {absent : List String} :
    capacityFailure gpus owned shared borrows absent = none
      ↔ gpus ≤ owned + if borrows then shared else 0 := by
  by_cases h : gpus ≤ owned + if borrows then shared else 0
  · exact iff_of_true (if_pos h) h
  · refine iff_of_false (fun hnone => ?_) h
    rw [capacityFailure, if_neg h] at hnone
    cases hnone

/-- **A pass that stops nothing covers nothing**, when nothing is on its way back. -/
theorem covers_of_noStops {w : Walk} (hcoming : w.pool.coming = []) (rs : List Request)
    (h : w.stuck = true ∨ stuckPreempts (planFrom w rs).1 = []) :
    ∀ d ∈ (planFrom w rs).1, ∀ job, ¬ d.covers job := by
  induction rs generalizing w with
  | nil => exact fun d hd => absurd hd List.not_mem_nil
  | cons r rs ih =>
    have hturned := Walk.turned w r
    have hafter : (w.turn r).2.pool.coming = [] := hturned.spent.coming.trans hcoming
    rw [planFrom_cons] at h ⊢
    have hrest : (w.stuck = true → (w.turn r).2.stuck = true) := fun hstuck => by
      by_contra hnot
      rw [hturned.stuck (by simpa using hnot)] at hstuck
      cases hstuck
    have hskip : ∀ d, (w.turn r).1 = d → (∀ job, ¬ d.covers job) →
        (stuckPreempts (d :: (planFrom (w.turn r).2 rs).1)
          = stuckPreempts (planFrom (w.turn r).2 rs).1) →
        ∀ f ∈ d :: (planFrom (w.turn r).2 rs).1, ∀ job, ¬ f.covers job := by
      rintro d hd hcovers hnext
      refine List.forall_mem_cons.mpr ⟨hcovers, ih hafter ?_⟩
      rw [hd, hnext] at h
      exact h.imp hrest id
    generalize hd : (w.turn r).1 = d at hturned
    generalize hw : (w.turn r).2 = after at hturned
    cases hturned with
    | fails => exact hw ▸ hskip _ hd (fun _ => id) rfl
    | fits => exact hw ▸ hskip _ hd (fun _ => id) rfl
    | passed => exact hw ▸ hskip _ hd (fun _ => id) rfl
    | fills => exact hw ▸ hskip _ hd (fun _ => id) rfl
    | waits _ hfree =>
      have hshort : w.shortFor r ≠ 0 := by
        rw [Walk.shortFor_of_noneComing hcoming]
        omega
      have hstops : (w.readFor r).stopsFor r (w.shortFor r) = [] := by
        rcases h with hstuck | hnone
        · refine if_neg fun hfirst => ?_
          rw [Walk.readFor_stuck, hstuck] at hfirst
          cases hfirst.2
        · rw [hd] at hnone
          simp only [Walk.waitFor, Walk.wait, stuckPreempts, if_pos hshort] at hnone
          exact List.map_eq_nil_iff.mp hnone
      have hstuck : (w.waitFor r).2.stuck = true := by
        rw [Walk.waitFor_stuck]
        simp [hshort]
      rw [hw] at hafter
      refine List.forall_mem_cons.mpr ⟨fun job hcovers => ?_, ih hafter (.inl hstuck)⟩
      simp only [Walk.waitFor, Walk.wait, Decision.covers, hstops, List.map_nil, ne_eq,
        not_true_eq_false, or_false] at hcovers
      exact hshort hcovers.2

namespace Replay

/-! ## The jobs the last round starts -/

section Last
variable {jobs : List Request} {s : Replay} (h : Sound jobs s) (e : Elsewhere)
include h

/-- A job leaves the queue in a round exactly when its turn starts it. -/
theorem mem_roundLaunches {before rest : List Request} {r : Request}
    (hpending : s.pending = before ++ r :: rest) :
    r ∈ (s.roundLaunches e).map Prod.fst
      ↔ ((walkTo ((s.planned e).pool e) before).turn r).1.assigns = true := by
  have hnodup : (before ++ r :: rest).Nodup := hpending ▸ List.Nodup.of_map _ h.ids
  obtain ⟨-, hr, hapart⟩ := List.nodup_append.mp hnodup
  have hrest : r ∉ rest := (List.nodup_cons.mp hr).1
  have hbefore : r ∉ before := fun hin => hapart r hin r List.mem_cons_self rfl
  have hplan : (s.planned e).decisions = plan s.pending ((s.planned e).pool e) := rfl
  have hout : ∀ (rs : List Request) (ds : List Decision), r ∉ rs →
      r ∉ (launches rs ds).map Prod.fst := fun rs ds hnot hin =>
    hnot ((launches_sublist rs ds).subset hin)
  rw [roundLaunches, hplan, hpending, plan_split, launches_append (by simp [plan]),
    List.map_append, List.mem_append]
  cases ((walkTo ((s.planned e).pool e) before).turn r).1 with
  | assigned => exact iff_of_true (.inr List.mem_cons_self) rfl
  | _ =>
    exact iff_of_false (not_or.mpr ⟨hout before _ hbefore, hout rest _ hrest⟩) Bool.false_ne_true

omit h in
/-- The free cards left at a turn are no more than the host's cards. -/
theorem freeCards_le (before : List Request) (r : Request) :
    ((walkTo (s.pool e) before).freeCards r : Int) ≤ (s.pool e).oursFor r := by
  have hspent := walkTo_spent (s.pool e) before
  have hfew := usable_le_oursFor s e r
  have howned := hspent.owned.length_le
  have hshared := hspent.shared.length_le
  have hstart : (Walk.start (s.pool e)).freeCards r = s.usable r.borrows := by
    rw [← length_offered s e r, Walk.offered, Walk.unheld_start, Walk.unheld_start,
      List.length_append, Walk.freeCards]
    cases r.borrows <;> rfl
  have hle : (walkTo (s.pool e) before).freeCards r ≤ (Walk.start (s.pool e)).freeCards r := by
    rw [Walk.freeCards, Walk.freeCards]
    cases r.borrows with
    | false => exact howned
    | true => exact Nat.add_le_add howned hshared
  omega

/-- **A round that stops nothing starts a filler exactly when the free cards left at its turn are
enough.** -/
theorem filler_launched_iff (hstops : stuckPreempts (s.planned e).decisions = [])
    {before rest : List Request} {r : Request} (hpending : s.pending = before ++ r :: rest)
    (hfills : r.fills = true) :
    r ∈ (s.roundLaunches e).map Prod.fst
      ↔ r.gpus ≤ (walkTo ((s.planned e).pool e) before).freeCards r := by
  have hpool : ((s.planned e).pool e).Distinct := pool_distinct (s.planned e) e h.uuids
  have hspent := walkTo_spent ((s.planned e).pool e) before
  have hfew := freeCards_le (s := s.planned e) e before r
  rw [mem_roundLaunches h e hpending]
  refine ⟨Walk.freeCards_of_assigns (hspent.distinct hpool), fun henough => ?_⟩
  refine Walk.assigns_of_freeCards (fun job hcovered => ?_) (hspent.coming.trans rfl) hfills ?_ ?_
    henough
  · obtain ⟨d, hd, hcovers⟩ := (covered_iff _ before).mp hcovered
    refine covers_of_noStops (w := Walk.start ((s.planned e).pool e)) rfl s.pending (.inr hstops) d
      ?_ job hcovers
    rw [hpending]
    show d ∈ plan _ _
    rw [plan_split]
    exact List.mem_append_left _ hd
  · rw [Walk.failureFor, capacityFailure_eq_none, hspent.ownedPresent, hspent.sharedVisible]
    rw [Pool.oursFor] at hfew
    cases hborrows : r.borrows <;>
    simp only [hborrows, Bool.false_eq_true, if_true, if_false] at hfew ⊢ <;>
    omega
  · have hsame : (walkTo ((s.planned e).pool e) before).pool.oursFor r
        = ((s.planned e).pool e).oursFor r := by
      rw [Pool.oursFor, Pool.oursFor, hspent.ownedPresent, hspent.sharedVisible, hspent.theirs]
    rw [hsame]
    exact hfew

end Last

/-- What a round with none to come does: it launches, and stops nothing. -/
theorem round_last {jobs : List Request} {s last : Replay} (h : Sound jobs s) (e : Elsewhere)
    (hround : s.round e = (last, false)) :
    last = s.launched e ∧ stuckPreempts (s.planned e).decisions = [] := by
  have hdecisions := launched_decisions h e
  unfold round at hround
  cases hstops : stuckPreempts (s.launched e).decisions with
  | cons jobId jobIds =>
    simp only [hstops] at hround
    cases (Prod.mk.inj hround).2
  | nil =>
    simp only [hstops] at hround
    cases hmin : (s.launched e).later.min? with
    | none =>
      simp only [hmin] at hround
      exact ⟨(Prod.mk.inj hround).1.symm, hdecisions ▸ hstops⟩
    | some time =>
      simp only [hmin] at hround
      cases (Prod.mk.inj hround).2

/-- A job has a start once it is launched. -/
theorem launchAll_starts {s : Replay} {ls : List (Request × List Uuid)} {j : JobId} :
    j ∈ (s.launchAll ls).starts.keys
      ↔ j ∈ s.starts.keys ∨ j ∈ (ls.map Prod.fst).map Request.jobId := by
  induction ls generalizing s with
  | nil => simp [launchAll]
  | cons l ls ih =>
    have hrest := ih (s := s.start l.1 l.2)
    rw [start_starts, Dict.mem_keys_setDefault] at hrest
    refine hrest.trans ?_
    rw [List.map_cons, List.map_cons, List.mem_cons]
    tauto

theorem launched_starts {jobs : List Request} {s : Replay} (h : Sound jobs s) (e : Elsewhere)
    {j : JobId} : j ∈ (s.launched e).starts.keys
      ↔ j ∈ s.starts.keys ∨ j ∈ ((s.roundLaunches e).map Prod.fst).map Request.jobId := by
  rw [launched_eq h e]
  exact launchAll_starts (s := s.planned e)

/-- **The queued jobs that have a start already find cards enough** in the round about to be made:
each at its turn, on the free cards it may use. -/
def Restarts (s : Replay) (e : Elsewhere) (already : List JobId) : Prop :=
  ∀ before r rest, s.pending = before ++ r :: rest → r.jobId ∈ s.starts.keys →
    r.jobId ∉ already → r.gpus ≤ (walkTo ((s.planned e).pool e) before).freeCards r

end Replay

/-! ## The answer -/

/-- The answer tells each queued job of a start or of a reason, and no job of both. -/
def Projection.OncePerJob (answer : Projection) (requests : List Request) : Prop :=
  (∀ j, ¬ (j ∈ answer.startsInS.keys ∧ j ∈ answer.unknown.keys)) ∧
    ∀ j, (j ∈ answer.startsInS.keys ∨ j ∈ answer.unknown.keys) ↔ j ∈ requests.map Request.jobId

section Question
variable {requests : List Request} {cards : List Card} {running : List (Preemptable × Request)}
  (h : Question requests cards running)
include h

/-- A job of the question was running from the first or is queued. -/
theorem Question.already_or_queued : ∀ r ∈ requests ++ running.map Prod.snd,
    r.jobId ∈ running.map (·.1.jobId) ∨ r.jobId ∈ requests.map Request.jobId := by
  intro r hr
  rcases List.mem_append.mp hr with hr | hr
  · exact .inr (List.mem_map_of_mem hr)
  · obtain ⟨p, hp, rfl⟩ := List.mem_map.mp hr
    exact .inl (List.mem_map.mpr ⟨p, hp, (Replay.key_jobId (h.again p hp)).symm⟩)

theorem Question.not_already {j : JobId} (hj : j ∈ requests.map Request.jobId) :
    j ∉ running.map (·.1.jobId) := by
  intro hin
  have hids := h.ids
  rw [List.map_append] at hids
  refine List.disjoint_of_nodup_append hids hj ?_
  obtain ⟨p, hp, rfl⟩ := List.mem_map.mp hin
  rw [← Replay.key_jobId (h.again p hp)]
  exact List.mem_map_of_mem (List.mem_map_of_mem hp)

theorem Question.told : Replay.Told requests (running.map (·.1.jobId))
    (.initial requests cards running) := by
  refine ⟨fun r hr => .inl hr, fun j hj => ?_, fun jobId entry hget => ?_, fun r hr hj => ?_⟩
  · exact absurd hj List.not_mem_nil
  · refine .inl ?_
    rw [Replay.initial, Dict.get?_ofList (by rw [List.map_map]; exact h.running_nodup)] at hget
    obtain ⟨p, hp, heq⟩ := List.mem_map.mp hget
    exact List.mem_map.mpr ⟨p, hp, (Prod.mk.inj heq).1⟩
  · exact absurd hj List.not_mem_nil

omit h in
/-- **The last state's answer**: the starts recorded, and a reason for each job still queued. -/
theorem answer_keys {jobs : List Request} {s t : Replay} (hs : Replay.Sound jobs s) (e : Elsewhere)
    (hlast : (s.pending = [] ∧ t = s) ∨ (s.pending ≠ [] ∧ s.round e = (t, false))) (j : JobId) :
    (j ∈ (t.answer requests running).startsInS.keys
      ↔ j ∈ t.starts.keys ∧ j ∉ running.map (·.1.jobId)) ∧
    (j ∈ (t.answer requests running).unknown.keys
      ↔ (∃ r ∈ t.pending, r.jobId = j) ∧ j ∉ running.map (·.1.jobId)) := by
  constructor
  · rw [Replay.answer, Dict.mem_keys_filter, Dict.mem_keys]
    simp only [decide_eq_true_iff, exists_and_right]
  · have hqueued : j ∈ (t.pending.filter fun r => r.jobId ∉ running.map (·.1.jobId)).map
        Request.jobId ↔ (∃ r ∈ t.pending, r.jobId = j) ∧ j ∉ running.map (·.1.jobId) := by
      simp only [List.mem_map, List.mem_filter, decide_eq_true_iff]
      constructor
      · rintro ⟨r, ⟨hr, hnot⟩, rfl⟩
        exact ⟨⟨r, hr, rfl⟩, hnot⟩
      · rintro ⟨⟨r, hr, rfl⟩, hnot⟩
        exact ⟨r, ⟨hr, hnot⟩, rfl⟩
    have hempty : j ∉ (Dict.empty : Dict JobId String).keys := List.not_mem_nil
    rw [Replay.answer, mem_unknownReasons, ← hqueued]
    refine ⟨fun hj => (hj.resolve_left hempty).1, fun hj => .inr ⟨hj, ?_⟩⟩
    obtain ⟨⟨r, hr, rfl⟩, -⟩ := hqueued.mp hj
    rcases hlast with ⟨hnone, rfl⟩ | ⟨-, hround⟩
    · rw [hnone] at hr
      exact absurd hr List.not_mem_nil
    · obtain ⟨rfl, -⟩ := Replay.round_last hs e hround
      obtain ⟨hpending, hnot⟩ := (Replay.mem_launched hs e).mp hr
      obtain ⟨before, rest, hsplit⟩ := List.append_of_mem hpending
      refine ⟨((walkTo ((s.planned e).pool e) before).turn r).1, ?_, (Walk.turned _ r).jobId, ?_⟩
      · rw [Replay.launched_decisions hs e]
        show _ ∈ plan s.pending ((s.planned e).pool e)
        rw [hsplit, plan_split]
        exact List.mem_append_right _ List.mem_cons_self
      · rw [Replay.mem_roundLaunches hs e hsplit] at hnot
        simpa using hnot

/-- **`project` answers for each queued job, and for no other, and it answers once exactly when the
queued jobs that have a start already find cards enough in the last round.** -/
theorem project_answers_iff (e : Elsewhere) :
    (∃ fuel answer, project fuel requests cards e running = some answer) ∧
      ∀ fuel answer, project fuel requests cards e running = some answer →
        ∃ last, (Replay.initial requests cards running).lastRound e fuel = some last ∧
          (answer.OncePerJob requests ↔ last.Restarts e (running.map (·.1.jobId))) := by
  constructor
  · obtain ⟨fuel, last, hlast⟩ := Replay.run_terminates h.sound h.ids e h.sorted
    exact ⟨fuel, last.answer requests running, by
      rw [project, if_neg Bool.false_ne_true, hlast]; rfl⟩
  intro fuel answer hanswer
  rw [project, if_neg Bool.false_ne_true, Option.map_eq_some_iff] at hanswer
  obtain ⟨t, hrun, rfl⟩ := hanswer
  obtain ⟨s, hs, ⟨hsound, htold⟩, hlast⟩ := Replay.lastRound_induct
    (motive := fun s => Replay.Sound (requests ++ running.map Prod.snd) s ∧
      Replay.Told requests (running.map (·.1.jobId)) s)
    ⟨h.sound, h.told⟩
    (fun s next hboth hround =>
      ⟨hboth.1.next e hround, hboth.2.next h.already_or_queued hboth.1 e hround⟩) hrun
  refine ⟨s, hs, ?_⟩
  have hkeys := @answer_keys requests running _ s t hsound e hlast
  -- what the last state has of each queued job
  have hend : Replay.Sound (requests ++ running.map Prod.snd) t ∧
      Replay.Told requests (running.map (·.1.jobId)) t := by
    rcases hlast with ⟨-, rfl⟩ | ⟨-, hround⟩
    · exact ⟨hsound, htold⟩
    · obtain ⟨rfl, -⟩ := Replay.round_last hsound e hround
      exact ⟨hsound.launched e, htold.launched h.already_or_queued hsound e⟩
  have htells : ∀ j, (j ∈ (t.answer requests running).startsInS.keys ∨
      j ∈ (t.answer requests running).unknown.keys) ↔ j ∈ requests.map Request.jobId := by
    intro j
    rw [(hkeys j).1, (hkeys j).2, ← or_and_right]
    constructor
    · rintro ⟨hstart | ⟨r, hr, rfl⟩, hnot⟩
      · exact (hend.2.ours j hstart).resolve_left hnot
      · exact (h.already_or_queued r (hend.1.pending r hr)).resolve_left hnot
    · intro hj
      refine ⟨?_, h.not_already hj⟩
      obtain ⟨r, hr, rfl⟩ := List.mem_map.mp hj
      exact (hend.2.kept r hr).symm.imp id fun hin => ⟨r, hin, rfl⟩
  constructor
  · rintro ⟨honce, -⟩ before r rest hsplit hstart hnot
    rcases hlast with ⟨hnone, -⟩ | ⟨-, hround⟩
    · rw [hnone] at hsplit
      simp at hsplit
    obtain ⟨rfl, -⟩ := Replay.round_last hsound e hround
    by_contra hfew
    have hpool : ((s.planned e).pool e).Distinct :=
      Replay.pool_distinct (s.planned e) e hsound.uuids
    have hwaits : r ∉ (s.roundLaunches e).map Prod.fst := fun hlaunch =>
      hfew (Walk.freeCards_of_assigns ((walkTo_spent _ before).distinct hpool)
        ((Replay.mem_roundLaunches hsound e hsplit).mp hlaunch))
    have hpending : r ∈ (s.launched e).pending := (Replay.mem_launched hsound e).mpr
      ⟨hsplit ▸ List.mem_append_right _ List.mem_cons_self, hwaits⟩
    exact honce r.jobId
      ⟨(hkeys _).1.mpr ⟨(Replay.launched_starts hsound e).mpr (.inl hstart), hnot⟩,
        (hkeys _).2.mpr ⟨⟨r, hpending, rfl⟩, hnot⟩⟩
  · refine fun hrestarts => ⟨?_, htells⟩
    rintro j ⟨hj, hj'⟩
    obtain ⟨hstart, hnot⟩ := (hkeys j).1.mp hj
    obtain ⟨⟨r, hr, rfl⟩, -⟩ := (hkeys j).2.mp hj'
    rcases hlast with ⟨hnone, rfl⟩ | ⟨-, hround⟩
    · rw [hnone] at hr
      exact List.not_mem_nil hr
    obtain ⟨rfl, hstops⟩ := Replay.round_last hsound e hround
    obtain ⟨hpending, hwaits⟩ := (Replay.mem_launched hsound e).mp hr
    obtain ⟨before, rest, hsplit⟩ := List.append_of_mem hpending
    -- a job still queued that has a start had it before the round, so it is a filler
    have hbefore : r.jobId ∈ s.starts.keys := by
      refine ((Replay.launched_starts hsound e).mp hstart).resolve_right fun hlaunch => ?_
      obtain ⟨q, hq, hid⟩ := List.mem_map.mp hlaunch
      have hq' := (Replay.launchable hsound e).pending.subset hq
      exact hwaits (List.inj_on_of_nodup_map hsound.ids hq' hpending hid ▸ hq)
    have hfills := (htold.fills r hpending hbefore).resolve_left hnot
    exact hwaits ((Replay.filler_launched_iff hsound e hstops hsplit hfills).mpr
      (hrestarts before r rest hsplit hbefore hnot))

/-- **Without fillers in the queue the answer is once for each job**: a job that has been started is
not queued again. -/
theorem Replay.restarts_of_noFillers {s : Replay} {e : Elsewhere}
    (htold : Replay.Told requests (running.map (·.1.jobId)) s)
    (hsound : Replay.Sound (requests ++ running.map Prod.snd) s)
    (hfills : ∀ r ∈ requests, r.fills = false) :
    s.Restarts e (running.map (·.1.jobId)) := by
  intro before r rest hsplit hstart hnot
  have hpending : r ∈ s.pending := hsplit ▸ List.mem_append_right _ List.mem_cons_self
  have hyes := (htold.fills r hpending hstart).resolve_left hnot
  have hin : r ∈ requests := by
    refine (List.mem_append.mp (hsound.pending r hpending)).resolve_right fun hagain => ?_
    obtain ⟨p, hp, rfl⟩ := List.mem_map.mp hagain
    exact hnot (List.mem_map.mpr ⟨p, hp, (Replay.key_jobId (h.again p hp)).symm⟩)
  rw [hfills r hin] at hyes
  cases hyes

end Question

/-! ## A filler in both -/

/-- A wide job that may borrow, and a filler behind it that may not. -/
def wideAndFiller : List Request :=
  [{ jobId := "v", gpus := 4, borrows := true, estimateS := some 30, priority := 10 },
    { jobId := "f", gpus := 1, borrows := false, estimateS := some 600, priority := 90,
      fills := true }]

/-- One owned card free, one that comes free in a minute, and two shared ones under a running job. -/
def twoOwnedTwoShared : List Card :=
  [⟨"o0", false, some 0⟩, ⟨"o1", false, some 60⟩, ⟨"s0", true, none⟩, ⟨"s1", true, none⟩]

/-- The running job, which says nothing of its end. -/
def runningOnShared : List (Preemptable × Request) :=
  [({ jobId := "r", priority := 80, gpus := ["s0", "s1"], started := -5, owned := 0,
      borrowed := 2 },
    { jobId := "r", gpus := 2, borrows := true, priority := 80, fills := true })]

theorem wideAndFiller_question : Question wideAndFiller twoOwnedTwoShared runningOnShared :=
  ⟨by decide, by decide, by decide, by decide, by decide⟩

theorem project_answers_wideAndFiller :
    (∃ fuel answer,
      project fuel wideAndFiller twoOwnedTwoShared { theirs := 0 } runningOnShared
        = some answer) ∧
      ∀ fuel answer,
        project fuel wideAndFiller twoOwnedTwoShared { theirs := 0 } runningOnShared
          = some answer →
        ∃ last, (Replay.initial wideAndFiller twoOwnedTwoShared runningOnShared).lastRound
            { theirs := 0 } fuel = some last ∧
          (answer.OncePerJob wideAndFiller ↔ last.Restarts { theirs := 0 } ["r"]) :=
  project_answers_iff wideAndFiller_question { theirs := 0 }

/-- **A filler may have a start and a reason why it has none**: it is started on the free owned card,
stopped for the wide job, and when that ends the other stopped job takes both owned cards. -/
theorem filler_in_both :
    ¬ ∀ (requests : List Request) (cards : List Card) (e : Elsewhere)
        (running : List (Preemptable × Request)), Question requests cards running →
      (∀ r ∈ requests, ∀ estimate, r.estimateS = some estimate → 0 < estimate) →
      ∀ fuel answer, project fuel requests cards e running = some answer →
        answer.OncePerJob requests := by
  intro h
  have hboth : (project 9 wideAndFiller twoOwnedTwoShared { theirs := 0 } runningOnShared).any
      (fun answer => "f" ∈ answer.startsInS.keys ∧ "f" ∈ answer.unknown.keys) = true := by
    decide +kernel
  obtain ⟨answer, hanswer, hkeys⟩ := (Option.any_eq_true _ _).mp hboth
  have hestimates : ∀ r ∈ wideAndFiller, ∀ estimate, r.estimateS = some estimate →
      0 < estimate := by
    simp only [wideAndFiller, List.forall_mem_cons, Option.some.injEq, forall_eq',
      List.not_mem_nil, false_imp_iff, implies_true, and_true]
    exact ⟨by decide +kernel, by decide +kernel⟩
  exact (h _ _ _ _ wideAndFiller_question hestimates 9 answer hanswer).1 "f"
    (of_decide_eq_true hkeys)

end Gpuc.Host
