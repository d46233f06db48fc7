import Gpuc.Basis.Fallible
import Gpuc.Host.Lookups
import Gpuc.Laws.Project.Terminates

/-!
# Which cards the replay looks up

A lookup of the replay can fail in one way only: a round stops a job whose state names a card that
`project` was not given, the stop files a release under it, and the next round finds it free. As long
as no round does that (`StopsKnown`), every round is the round of the replay that looks nothing up
(`round_eq`), and that replay is the one the other laws are about (`projectLooking_eq`).

That `project` was given every card a running job names is what `Question` asks, and there no round
stops a job on an unknown card (`Question.stopsKnown`). `projectedStarts` does not establish it.
-/

set_option autoImplicit false

namespace Gpuc.Host

open Gpuc.Basis

/-- **Every job the round stops holds cards of the host only.** -/
def Replay.StopsKnown (s : Replay) (e : Elsewhere) : Prop :=
  ∀ jobId ∈ stuckPreempts (s.launched e).decisions, ∀ entry,
    (s.launched e).stoppable.get? jobId = some entry →
      ∀ c ∈ entry.job.gpus, c ∈ s.cards.map Card.uuid

namespace Lookups

/-- Nothing is filed under a card the replay was not given, and it was given no card twice. -/
structure Clean (s : Lookups) : Prop where
  strays : s.strays = .empty
  uuids : (s.replay.cards.map Card.uuid).Nodup

/-- A replay, with nothing filed besides. -/
def ofReplay (s : Replay) : Lookups := { replay := s }

/-! ## A lookup that succeeds -/

section Looking
variable {s : Replay}

theorem isShared_of_mem (huuids : (s.cards.map Card.uuid).Nodup) {card : Card}
    (hcard : card ∈ s.cards) : (ofReplay s).isShared card.uuid = .ok card.shared := by
  have hfind : (s.cards.find? fun other => other.uuid = card.uuid) = some card := by
    rw [List.find?_eq_some_iff_append]
    obtain ⟨before, after, hsplit⟩ := List.append_of_mem hcard
    refine ⟨decide_eq_true rfl, before, after, hsplit, fun other hother => ?_⟩
    rw [hsplit, List.map_append, List.map_cons] at huuids
    have hne : other.uuid ≠ card.uuid := fun heq =>
      (List.nodup_append.mp huuids).2.2 other.uuid (List.mem_map_of_mem hother)
        card.uuid List.mem_cons_self heq
    simpa using hne
  have hfind' : ((ofReplay s).replay.cards.find? fun other => other.uuid = card.uuid) = some card :=
    hfind
  rw [isShared, hfind']

/-- A lookup fails for a card the replay was not given, and for no other. -/
theorem isShared_error {t : Lookups} {c : Uuid} (h : c ∉ t.replay.cards.map Card.uuid) :
    t.isShared c = .error ⟨c⟩ := by
  have hfind : (t.replay.cards.find? fun card => card.uuid = c) = none := by
    rw [List.find?_eq_none]
    exact fun card hcard heq => h (List.mem_map.mpr ⟨card, hcard, of_decide_eq_true heq⟩)
  rw [isShared, hfind]

theorem mapM_isShared (huuids : (s.cards.map Card.uuid).Nodup) {gpus : List Uuid}
    (h : ∀ c ∈ gpus, c ∈ s.cards.map Card.uuid) :
    ∃ shared, gpus.mapM (ofReplay s).isShared = .ok shared := by
  induction gpus with
  | nil => exact ⟨[], rfl⟩
  | cons c gpus ih =>
    obtain ⟨rest, hrest⟩ := ih fun d hd => h d (List.mem_cons_of_mem c hd)
    obtain ⟨card, hcard, rfl⟩ := List.mem_map.mp (h c List.mem_cons_self)
    exact ⟨card.shared :: rest, by rw [List.mapM_cons, isShared_of_mem huuids hcard, hrest]; rfl⟩

/-- **With nothing filed besides, a round's pool is the replay's.** -/
theorem pool_eq (huuids : (s.cards.map Card.uuid).Nodup) (e : Elsewhere) :
    (ofReplay s).pool e = .ok (s.pool e) := by
  have hknown : ∀ cards : List Card, (∀ card ∈ cards, card ∈ s.cards) →
      ((cards.map Card.uuid).mapM fun uuid => do
        let shared ← (ofReplay s).isShared uuid
        pure (uuid, shared)) = Except.ok (cards.map fun card => (card.uuid, card.shared)) := by
    intro cards
    induction cards with
    | nil => exact fun _ => rfl
    | cons card cards ih =>
      intro hcards
      rw [List.map_cons, List.mapM_cons, isShared_of_mem huuids (hcards card List.mem_cons_self),
        ih fun other hother => hcards other (List.mem_cons_of_mem card hother)]
      rfl
  have hfree : (ofReplay s).free = s.free.map Card.uuid := List.append_nil _
  rw [pool, hfree, hknown s.free fun card hcard => (List.mem_filter.mp hcard).1]
  have hside : ∀ p : Bool → Bool,
      ((s.free.map fun card => (card.uuid, card.shared)).filter fun known => p known.2).map Prod.fst
        = (s.free.filter fun card => p card.shared).map Card.uuid := fun p => by
    rw [List.filter_map, List.map_map]
    rfl
  refine congrArg Except.ok ?_
  show ({ s.pool e with
      ownedFree := List.map Prod.fst (List.filter (fun known => !known.2) _)
      sharedFree := some (List.map Prod.fst (List.filter (fun known => id known.2) _)) } : Pool) = _
  rw [hside fun shared => !shared, hside id]
  rfl

end Looking

/-! ## A round that looks everything up -/

section Round
variable {s : Replay}

theorem enter_known (s : Lookups) {gpus : List Uuid} {time : Option Seconds}
    (h : ∀ c ∈ gpus, c ∈ s.replay.cards.map Card.uuid) : s.enter gpus time = s.strays := by
  have hnone : (gpus.filter fun uuid => uuid ∉ s.replay.cards.map Card.uuid) = [] :=
    List.filter_eq_nil_iff.mpr fun c hc => by simpa using h c hc
  rw [enter, hnone]
  rfl

theorem start_eq (huuids : (s.cards.map Card.uuid).Nodup) (r : Request) {gpus : List Uuid}
    (h : ∀ c ∈ gpus, c ∈ s.cards.map Card.uuid) :
    (ofReplay s).start r gpus = .ok (ofReplay (s.start r gpus)) := by
  have hstrays : (ofReplay s).enter gpus (s.doneAt r) = .empty := enter_known (ofReplay s) h
  have hstarted : (Except.ok ⟨s.start r gpus, (ofReplay s).enter gpus (s.doneAt r)⟩ :
      Except KeyError Lookups) = .ok (ofReplay (s.start r gpus)) := by
    rw [hstrays]
    rfl
  obtain ⟨shared, hshared⟩ := mapM_isShared huuids h
  unfold start
  split
  · rw [hshared]
    exact hstarted
  · exact hstarted

theorem startAll_eq (byId : Dict JobId Request) {ds : List Decision}
    (huuids : (s.cards.map Card.uuid).Nodup)
    (h : ∀ d ∈ ds, ∀ c ∈ d.gpus, c ∈ s.cards.map Card.uuid) :
    startAll byId (ofReplay s) ds = .ok (ofReplay (s.startAll byId ds)) := by
  induction ds generalizing s with
  | nil => rfl
  | cons d ds ih =>
    have hrest : ∀ d ∈ ds, ∀ c ∈ d.gpus, c ∈ s.cards.map Card.uuid := fun d hd =>
      h d (List.mem_cons_of_mem _ hd)
    cases d with
    | assigned jobId gpus heldFor =>
      have hgpus : ∀ c ∈ gpus, c ∈ s.cards.map Card.uuid := h _ List.mem_cons_self
      simp only [startAll, Replay.startAll]
      cases byId.get? jobId with
      | none => exact ih huuids hrest
      | some r =>
        have huuids' := Replay.start_uuids s r gpus
        simp only [start_eq huuids r hgpus]
        exact ih (huuids'.symm ▸ huuids) (huuids'.symm ▸ hrest)
    | _ => exact ih huuids hrest

theorem planned_eq (huuids : (s.cards.map Card.uuid).Nodup) (e : Elsewhere) :
    (ofReplay s).planned e = .ok (ofReplay (s.planned e)) := by
  have hpool := pool_eq (s := { s with stoppable := s.current }) huuids e
  show (ofReplay { s with stoppable := s.current }).pool e >>= _ = _
  rw [hpool]
  rfl

/-- The cards of the decisions of a round are the host's. -/
theorem planned_known (huuids : (s.cards.map Card.uuid).Nodup) (e : Elsewhere) :
    ∀ d ∈ (s.planned e).decisions, ∀ c ∈ d.gpus, c ∈ s.cards.map Card.uuid := by
  intro d hd c hc
  have hpool := Replay.pool_distinct { s with stoppable := s.current } e huuids
  exact (Replay.isFree_of_pool _ e (plan_gives s.pending hpool d hd c hc)).mem_uuids

/-- **With nothing filed besides, launching what fits looks up cards of the host only.** -/
theorem launched_eq (huuids : (s.cards.map Card.uuid).Nodup) (e : Elsewhere) :
    (ofReplay s).launched e = .ok (ofReplay (s.launched e)) := by
  have hstart := startAll_eq (Dict.ofList (s.pending.map fun r => (r.jobId, r)))
    (s := s.planned e) huuids (planned_known huuids e)
  rw [launched, planned_eq huuids e]
  exact hstart

theorem startAll_uuids (byId : Dict JobId Request) (s : Replay) (ds : List Decision) :
    (s.startAll byId ds).cards.map Card.uuid = s.cards.map Card.uuid := by
  induction ds generalizing s with
  | nil => rfl
  | cons d ds ih =>
    cases d with
    | assigned jobId gpus heldFor =>
      simp only [Replay.startAll]
      cases byId.get? jobId with
      | none => exact ih s
      | some r => rw [ih, Replay.start_uuids]
    | _ => exact ih s

theorem launched_uuids (s : Replay) (e : Elsewhere) :
    (s.launched e).cards.map Card.uuid = s.cards.map Card.uuid :=
  startAll_uuids _ _ _

end Round

/-! ## The stops -/

section Stops
variable {s : Replay} {t : Lookups} {c : Uuid}

theorem get?_stop (s : Replay) (jobId other : JobId) :
    (s.stop jobId).stoppable.get? other
      = if other = jobId then none else s.stoppable.get? other := by
  cases hentry : s.stoppable.get? jobId with
  | none =>
    rw [Replay.stop_eq_none hentry]
    split
    · next heq => rw [heq, hentry]
    · rfl
  | some entry => rw [Replay.stop_eq hentry, Dict.get?_erase]

theorem stop_strays_none {jobId : JobId} (h : t.replay.stoppable.get? jobId = none) :
    (t.stop jobId).strays = t.strays := by
  rw [stop, h]

theorem stop_strays_some {jobId : JobId} {entry : Stoppable}
    (h : t.replay.stoppable.get? jobId = some entry) :
    (t.stop jobId).strays = t.enter entry.job.gpus (some t.replay.clock) := by
  rw [stop, h]

/-- **The stops of jobs on cards of the host file nothing besides.** -/
theorem stops_known {jobIds : List JobId}
    (h : ∀ jobId ∈ jobIds, ∀ entry, s.stoppable.get? jobId = some entry →
      ∀ c ∈ entry.job.gpus, c ∈ s.cards.map Card.uuid) :
    jobIds.foldl stop (ofReplay s) = ofReplay (jobIds.foldl Replay.stop s) := by
  induction jobIds generalizing s with
  | nil => rfl
  | cons jobId jobIds ih =>
    have hfirst : (ofReplay s).stop jobId = ofReplay (s.stop jobId) := by
      refine congrArg (Lookups.mk (s.stop jobId)) ?_
      cases hentry : s.stoppable.get? jobId with
      | none => exact @stop_strays_none (ofReplay s) jobId hentry
      | some entry =>
        exact (@stop_strays_some (ofReplay s) jobId entry hentry).trans
          (enter_known _ (h jobId List.mem_cons_self entry hentry))
    rw [List.foldl_cons, List.foldl_cons, hfirst]
    refine ih fun other hother entry hget => ?_
    rw [get?_stop] at hget
    rw [Replay.stop_uuids]
    split at hget
    · cases hget
    · exact h other (List.mem_cons_of_mem jobId hother) entry hget

theorem get?_enter (t : Lookups) (gpus : List Uuid) (time : Option Seconds)
    (hc : c ∉ t.replay.cards.map Card.uuid) :
    (t.enter gpus time).get? c = if c ∈ gpus then some time else t.strays.get? c := by
  have hfold : ∀ (strays : Dict Uuid (Option Seconds)) (uuids : List Uuid),
      (uuids.foldl (fun strays uuid => strays.set uuid time) strays).get? c
        = if c ∈ uuids then some time else strays.get? c := by
    intro strays uuids
    induction uuids generalizing strays with
    | nil => rfl
    | cons uuid uuids ih =>
      rw [List.foldl_cons, ih, Dict.get?_set]
      by_cases hin : c ∈ uuids <;> by_cases heq : c = uuid <;> simp [hin, heq]
  rw [enter, hfold]
  simp only [List.mem_filter, hc, not_false_iff, decide_true, and_true]

/-- A release is filed, as of now, under a card the replay was not given. -/
structure Strays (t : Lookups) (c : Uuid) : Prop where
  unknown : c ∉ t.replay.cards.map Card.uuid
  filed : t.strays.get? c = some (some t.replay.clock)

theorem stop_strays (t : Lookups) (jobId : JobId) :
    (t.stop jobId).strays = match t.replay.stoppable.get? jobId with
      | none => t.strays
      | some entry => t.enter entry.job.gpus (some t.replay.clock) := rfl

theorem Strays.stop (h : Strays t c) (jobId : JobId) : Strays (t.stop jobId) c := by
  refine ⟨?_, ?_⟩
  · show c ∉ (t.replay.stop jobId).cards.map Card.uuid
    rw [Replay.stop_uuids]
    exact h.unknown
  · show _ = some (some (t.replay.stop jobId).clock)
    rw [Replay.stop_clock, stop_strays]
    cases t.replay.stoppable.get? jobId with
    | none => exact h.filed
    | some entry =>
      show (t.enter _ _).get? c = _
      rw [get?_enter t _ _ h.unknown]
      split
      · rfl
      · exact h.filed

theorem Strays.stops (h : Strays t c) (jobIds : List JobId) :
    Strays (jobIds.foldl Lookups.stop t) c := by
  induction jobIds generalizing t with
  | nil => exact h
  | cons jobId jobIds ih => exact ih (h.stop jobId)

/-- **The stop of a job on an unknown card files a release under it.** -/
theorem strays_of_stops {jobIds : List JobId} {jobId : JobId} {entry : Stoppable}
    (hjobId : jobId ∈ jobIds) (hentry : t.replay.stoppable.get? jobId = some entry)
    (hc : c ∈ entry.job.gpus) (hunknown : c ∉ t.replay.cards.map Card.uuid) :
    Strays (jobIds.foldl Lookups.stop t) c := by
  induction jobIds generalizing t with
  | nil => exact absurd hjobId List.not_mem_nil
  | cons first jobIds ih =>
    rw [List.foldl_cons]
    by_cases hfirst : jobId = first
    · subst hfirst
      refine Strays.stops ⟨?_, ?_⟩ jobIds
      · show c ∉ (t.replay.stop jobId).cards.map Card.uuid
        rw [Replay.stop_uuids]
        exact hunknown
      · show _ = some (some (t.replay.stop jobId).clock)
        rw [Replay.stop_clock, stop_strays, hentry]
        show (t.enter _ _).get? c = _
        rw [get?_enter t _ _ hunknown, if_pos hc]
    · refine ih ((List.mem_cons.mp hjobId).resolve_left hfirst) ?_ ?_
      · show (t.replay.stop first).stoppable.get? jobId = some entry
        rw [get?_stop, if_neg hfirst]
        exact hentry
      · show c ∉ (t.replay.stop first).cards.map Card.uuid
        rw [Replay.stop_uuids]
        exact hunknown

theorem stops_replay (t : Lookups) (jobIds : List JobId) :
    (jobIds.foldl Lookups.stop t).replay = jobIds.foldl Replay.stop t.replay := by
  induction jobIds generalizing t with
  | nil => rfl
  | cons jobId jobIds ih => exact ih _

/-- A stopped job is queued again, so there is a round to come. -/
theorem stops_pending {jobIds : List JobId} {jobId : JobId} {entry : Stoppable}
    (hjobId : jobId ∈ jobIds) (hentry : s.stoppable.get? jobId = some entry) :
    (jobIds.foldl Replay.stop s).pending ≠ [] := by
  have hkept : ∀ (s : Replay) (jobIds : List JobId), s.pending ≠ [] →
      (jobIds.foldl Replay.stop s).pending ≠ [] := by
    intro s jobIds
    induction jobIds generalizing s with
    | nil => exact id
    | cons first jobIds ih =>
      intro hs
      refine ih _ ?_
      cases hfirst : s.stoppable.get? first with
      | none => rwa [Replay.stop_eq_none hfirst]
      | some other => rw [Replay.stop_eq hfirst]; simp
  induction jobIds generalizing s with
  | nil => exact absurd hjobId List.not_mem_nil
  | cons first jobIds ih =>
    rw [List.foldl_cons]
    by_cases hfirst : jobId = first
    · subst hfirst
      refine hkept _ _ ?_
      rw [Replay.stop_eq hentry]
      simp
    · refine ih ((List.mem_cons.mp hjobId).resolve_left hfirst) ?_
      rw [get?_stop, if_neg hfirst]
      exact hentry

end Stops

/-! ## A round -/

section Round
variable {s : Replay} {e : Elsewhere}

section Cases
variable {before after : Lookups}

theorem round_stuck {jobId : JobId} {jobIds : List JobId} (h : before.launched e = .ok after)
    (hstops : stuckPreempts after.replay.decisions = jobId :: jobIds) :
    before.round e = .ok (after.stopAll (jobId :: jobIds), true) := by
  unfold round
  simp only [h, bind, Except.bind, hstops]
  rfl

theorem round_last (h : before.launched e = .ok after)
    (hstops : stuckPreempts after.replay.decisions = []) (hlater : after.later.min? = none) :
    before.round e = .ok (after, false) := by
  unfold round
  simp only [h, bind, Except.bind, hstops, hlater]
  rfl

theorem round_later {next : Seconds} (h : before.launched e = .ok after)
    (hstops : stuckPreempts after.replay.decisions = []) (hlater : after.later.min? = some next) :
    before.round e
      = .ok ({ after with replay := { after.replay with clock := next } }, true) := by
  unfold round
  simp only [h, bind, Except.bind, hstops, hlater]
  rfl

end Cases

/-- **A round that stops jobs on cards of the host only is the replay's own.** -/
theorem round_eq (huuids : (s.cards.map Card.uuid).Nodup) (h : s.StopsKnown e) :
    (ofReplay s).round e = .ok (ofReplay (s.round e).1, (s.round e).2) := by
  have hlaunched := launched_eq huuids e
  unfold Replay.round
  cases hstops : stuckPreempts (s.launched e).decisions with
  | cons jobId jobIds =>
    have hknown : (jobId :: jobIds).foldl stop (ofReplay (s.launched e))
        = ofReplay ((jobId :: jobIds).foldl Replay.stop (s.launched e)) :=
      stops_known fun other hother entry hget => by
        rw [launched_uuids]
        exact h other (hstops ▸ hother) entry hget
    rw [round_stuck hlaunched hstops, stopAll, hknown]
    simp only [hstops]
    rfl
  | nil =>
    have hlater : (ofReplay (s.launched e)).later = (s.launched e).later := List.append_nil _
    simp only [hstops]
    cases hmin : (s.launched e).later.min? with
    | none => exact round_last hlaunched hstops (by rw [hlater, hmin])
    | some next => exact round_later hlaunched hstops (by rw [hlater, hmin])

/-- The pool of a round cannot be made when a card that is free is not one the replay was given. -/
theorem pool_error {t : Lookups} {c : Uuid} (e : Elsewhere) (hfree : c ∈ t.free)
    (hunknown : c ∉ t.replay.cards.map Card.uuid) : ∃ missing, t.pool e = .error missing := by
  cases hpool : t.pool e with
  | error missing => exact ⟨missing, rfl⟩
  | ok pool =>
    obtain ⟨known, hknown, -⟩ := bind_eq_ok hpool
    obtain ⟨y, -, hy⟩ := mem_mapM_eq_ok hknown hfree
    rw [isShared_error hunknown] at hy
    cases hy

/-- A card filed as of now is free, and its lookup fails. -/
theorem Strays.round_error {t : Lookups} {c : Uuid} (h : Strays t c) (e : Elsewhere) :
    ∃ missing, t.round e = .error missing := by
  have hfree : c ∈ t.free := by
    refine List.mem_append_right _ (Dict.mem_keys.mpr ⟨some t.replay.clock, ?_⟩)
    rw [Dict.get?_filter, h.filed]
    simp
  obtain ⟨missing, hmissing⟩ := pool_error (t := { t with
    replay := { t.replay with stoppable := t.replay.current } }) e hfree h.unknown
  refine ⟨missing, ?_⟩
  rw [round, launched, planned, hmissing]
  rfl

/-- **A round that stops a job on an unknown card leaves one in which a lookup fails.** -/
theorem round_strays (huuids : (s.cards.map Card.uuid).Nodup) (h : ¬ s.StopsKnown e) :
    ∃ next c, (ofReplay s).round e = .ok (next, true) ∧ next.replay.pending ≠ [] ∧
      Strays next c := by
  simp only [Replay.StopsKnown, not_forall] at h
  obtain ⟨jobId, hjobId, entry, hentry, c, hc, hunknown⟩ := h
  cases hstops : stuckPreempts (s.launched e).decisions with
  | nil => rw [hstops] at hjobId; exact absurd hjobId List.not_mem_nil
  | cons first rest =>
    rw [hstops] at hjobId
    have hstray : Strays ((first :: rest).foldl stop (ofReplay (s.launched e))) c := by
      refine strays_of_stops hjobId hentry hc ?_
      show c ∉ (s.launched e).cards.map Card.uuid
      rwa [launched_uuids]
    refine ⟨(ofReplay (s.launched e)).stopAll (first :: rest), c, ?_, ?_, hstray.unknown,
      hstray.filed⟩
    · exact round_stuck (launched_eq huuids e) hstops
    · show sortedBy Request.key ((first :: rest).foldl stop (ofReplay (s.launched e))).replay.pending
        ≠ []
      have hpending := stops_pending (s := s.launched e) hjobId hentry
      rw [stops_replay]
      intro hnil
      refine hpending (List.eq_nil_iff_forall_not_mem.mpr fun r hr => ?_)
      exact List.not_mem_nil (hnil ▸ mem_sortedBy.mpr hr)

theorem round_uuids (s : Replay) (e : Elsewhere) :
    (s.round e).1.cards.map Card.uuid = s.cards.map Card.uuid := by
  have hstops : ∀ (s : Replay) (jobIds : List JobId),
      (jobIds.foldl Replay.stop s).cards.map Card.uuid = s.cards.map Card.uuid := by
    intro s jobIds
    induction jobIds generalizing s with
    | nil => rfl
    | cons jobId jobIds ih => rw [List.foldl_cons, ih, Replay.stop_uuids]
  rw [← launched_uuids s e]
  simp only [Replay.round]
  cases stuckPreempts (s.launched e).decisions with
  | cons jobId jobIds => exact hstops _ _
  | nil => cases (s.launched e).later.min? <;> rfl

end Round

/-! ## The rounds of a replay -/

/-- **The states the rounds of a replay begin in.** -/
inductive Reached (e : Elsewhere) (first : Lookups) : Lookups → Prop
  | first : Reached e first first
  | round {t next : Lookups} : Reached e first t → t.replay.pending ≠ [] →
      t.round e = .ok (next, true) → Reached e first next

section Reached
variable {e : Elsewhere} {s : Replay} {first second t : Lookups}

theorem Reached.after (hround : first.replay.pending ≠ [] ∧ first.round e = .ok (second, true))
    (h : Reached e second t) : Reached e first t := by
  induction h with
  | first => exact .round .first hround.1 hround.2
  | round _ hpending hnext ih => exact ih.round hpending hnext

/-- The rounds from a replay with nothing filed besides, as long as they stop known jobs only: they
file nothing. -/
theorem Reached.ofReplay (huuids : (s.cards.map Card.uuid).Nodup)
    (hknown : ∀ t, Reached e (ofReplay s) t → t.replay.pending ≠ [] → t.replay.StopsKnown e)
    (h : Reached e (ofReplay s) t) :
    t = Lookups.ofReplay t.replay ∧ t.replay.cards.map Card.uuid = s.cards.map Card.uuid := by
  induction h with
  | first => exact ⟨rfl, rfl⟩
  | @round t next hreached hpending hround ih =>
    obtain ⟨hclean, hcards⟩ := ih
    rw [hclean, round_eq (hcards ▸ huuids) (hknown t hreached hpending)] at hround
    obtain ⟨rfl, -⟩ := Prod.mk.inj (Except.ok.inj hround)
    exact ⟨rfl, (round_uuids t.replay e).trans hcards⟩

/-- **The replay that stops jobs on cards of the host only makes every lookup**, and it is the replay
that makes none. -/
theorem run_eq (huuids : (s.cards.map Card.uuid).Nodup)
    (hknown : ∀ t, Reached e (ofReplay s) t → t.replay.pending ≠ [] → t.replay.StopsKnown e)
    (fuel : Nat) : run e fuel (ofReplay s) = .ok ((s.run e fuel).map ofReplay) := by
  induction fuel generalizing s with
  | zero => rfl
  | succ fuel ih =>
    rw [run, Replay.run]
    show (if s.pending = [] then _ else _) = _
    split
    · rfl
    · next hpending =>
      have hround := round_eq huuids (hknown _ .first hpending)
      rw [hround]
      have huuids' := (round_uuids s e).symm ▸ huuids
      cases hnext : s.round e with
      | mk next more =>
        rw [hnext] at hround huuids'
        cases more with
        | false => rfl
        | true => exact ih huuids' fun t ht => hknown t (ht.after ⟨hpending, hround⟩)

/-- A lookup that fails in a round to come fails the replay. -/
theorem Reached.run_error (h : Reached e first t) {missing : KeyError}
    (hpending : t.replay.pending ≠ []) (hround : t.round e = .error missing) :
    ∃ fuel, run e fuel first = .error missing := by
  have hback : ∀ fuel, run e fuel t = .error missing → ∃ fuel, run e fuel first = .error missing := by
    clear hpending hround
    induction h with
    | first => exact fun fuel hrun => ⟨fuel, hrun⟩
    | @round t next _ hpending' hnext ih =>
      refine fun fuel hrun => ih (fuel + 1) ?_
      rw [run, if_neg hpending', hnext]
      exact hrun
  refine hback 1 ?_
  rw [run, if_neg hpending, hround]
  rfl

end Reached

end Lookups

/-- **Where no round stops a job on an unknown card, `project` makes all its lookups** and answers as
the projection that makes none. -/
theorem projectLooking_eq {requests : List Request} {cards : List Card} {e : Elsewhere}
    {running : List (Preemptable × Request)} (huuids : (cards.map Card.uuid).Nodup)
    (hknown : ∀ t, Lookups.Reached e (.ofReplay (.initial requests cards running)) t →
      t.replay.pending ≠ [] → t.replay.StopsKnown e) (fuel : Nat) (draining : Bool) :
    projectLooking fuel requests cards e running draining
      = .ok (project fuel requests cards e running draining) := by
  cases draining with
  | true => rfl
  | false =>
    show (do let last ← Lookups.run e fuel (.ofReplay (.initial requests cards running)); _) = _
    rw [Lookups.run_eq huuids hknown]
    show Except.ok (Option.map _ (Option.map _ _)) = _
    rw [Option.map_map]
    rfl

/-- Where every running job's cards are cards of the host, no round stops a job on an unknown card. -/
theorem Replay.Sound.stopsKnown {jobs : List Request} {s : Replay} (h : Sound jobs s)
    (e : Elsewhere) : s.StopsKnown e := by
  intro jobId _ entry hentry c hc
  have hamong := (h.launched e).among jobId entry hentry c hc
  rwa [Lookups.launched_uuids] at hamong

theorem Question.stopsKnown {requests : List Request} {cards : List Card}
    {running : List (Preemptable × Request)} (h : Question requests cards running) (e : Elsewhere)
    {t : Lookups} (ht : Lookups.Reached e (.ofReplay (.initial requests cards running)) t) :
    t.replay.StopsKnown e := by
  have hsound : t = .ofReplay t.replay ∧ t.replay.Sound (requests ++ running.map Prod.snd) := by
    induction ht with
    | first => exact ⟨rfl, h.sound⟩
    | @round t next _ _ hround ih =>
      obtain ⟨hclean, hsound⟩ := ih
      rw [hclean, Lookups.round_eq hsound.uuids (hsound.stopsKnown e)] at hround
      obtain ⟨rfl, hmore⟩ := Prod.mk.inj (Except.ok.inj hround)
      exact ⟨rfl, hsound.next e (Prod.ext rfl hmore)⟩
  exact hsound.2.stopsKnown e

/-! ## What `status` asks -/

namespace Snapshot
variable (s : Snapshot)

/-- The replay of a snapshot as it begins. -/
def begins : Lookups := .ofReplay (.initial s.asked s.cards s.stoppable)

/-- A round of the replay begins in this state. -/
def Reaches (t : Lookups) : Prop := s.draining = false ∧ Lookups.Reached s.elsewhere s.begins t

/-- **`project` never looks up a card it does not know**: it raises nothing, and whatever is filed in
`releases` is filed under one of the cards passed in. -/
structure LooksUpKnown : Prop where
  answers : ∀ fuel, ∃ answer, s.projectedStarts fuel = .ok answer
  filed : ∀ t, s.Reaches t → ∀ c ∈ t.releases, c ∈ s.cards.map Card.uuid
  looked : ∀ t, s.Reaches t → t.replay.pending ≠ [] → ∃ next more,
    t.round s.elsewhere = .ok (next, more) ∧ ∀ c ∈ next.releases, c ∈ s.cards.map Card.uuid

theorem cards_nodup : (s.cards.map Card.uuid).Nodup := by
  have hrows : s.cards.map Card.uuid = (s.table.cards.filter s.offers).map CardRow.uuid := by
    rw [cards, List.map_map]
    rfl
  rw [hrows]
  exact (List.filter_sublist.map CardRow.uuid).nodup s.table.distinct

theorem releases_ofReplay {t : Replay} {cards : List Card}
    (h : t.cards.map Card.uuid = cards.map Card.uuid) :
    ∀ c ∈ (Lookups.ofReplay t).releases, c ∈ cards.map Card.uuid := by
  intro c hc
  rcases List.mem_append.mp hc with hc | hc
  · exact h ▸ hc
  · exact absurd hc List.not_mem_nil

theorem projectedStarts_ok {fuel : Nat} :
    (∃ answer, s.projectedStarts fuel = .ok answer) ↔ ∃ answer,
      projectLooking fuel s.asked s.cards s.elsewhere s.stoppable s.draining = .ok answer := by
  rw [projectedStarts]
  cases projectLooking fuel s.asked s.cards s.elsewhere s.stoppable s.draining with
  | ok answer => exact ⟨fun _ => ⟨_, rfl⟩, fun _ => ⟨_, rfl⟩⟩
  | error missing => exact ⟨fun ⟨_, h⟩ => (by cases h), fun ⟨_, h⟩ => (by cases h)⟩

/-- **`project` looks up known cards only exactly when no round of it stops a job that holds a card it
was not given**, from any snapshot of a host. -/
theorem looksUpKnown_iff :
    s.LooksUpKnown
      ↔ ∀ t, s.Reaches t → t.replay.pending ≠ [] → t.replay.StopsKnown s.elsewhere := by
  have huuids := s.cards_nodup
  constructor
  · intro h
    -- a state with a stray release has a card filed that was not passed in
    have hclean : ∀ t, s.Reaches t →
        t = .ofReplay t.replay ∧ t.replay.cards.map Card.uuid = s.cards.map Card.uuid := by
      rintro t ⟨hdraining, ht⟩
      induction ht with
      | first => exact ⟨rfl, rfl⟩
      | @round t next hreached hpending hround ih =>
        obtain ⟨hclean, hcards⟩ := ih
        by_cases hknown : t.replay.StopsKnown s.elsewhere
        · rw [hclean, Lookups.round_eq (hcards ▸ huuids) hknown] at hround
          obtain ⟨rfl, -⟩ := Prod.mk.inj (Except.ok.inj hround)
          exact ⟨rfl, (Lookups.round_uuids t.replay _).trans hcards⟩
        · obtain ⟨next', c, hround', hpending', hstray⟩ :=
            Lookups.round_strays (hcards ▸ huuids) hknown
          rw [← hclean, hround] at hround'
          obtain ⟨rfl, -⟩ := Prod.mk.inj (Except.ok.inj hround')
          obtain ⟨missing, herror⟩ := hstray.round_error s.elsewhere
          obtain ⟨last, more, hlast, -⟩ :=
            h.looked next ⟨hdraining, hreached.round hpending hround⟩ hpending'
          rw [herror] at hlast
          cases hlast
    intro t ht hpending
    obtain ⟨hreplay, hcards⟩ := hclean t ht
    by_contra hunknown
    obtain ⟨next, c, hround, hpending', hstray⟩ :=
      Lookups.round_strays (hcards ▸ huuids) hunknown
    rw [← hreplay] at hround
    obtain ⟨missing, herror⟩ := hstray.round_error s.elsewhere
    obtain ⟨last, more, hlast, -⟩ := h.looked next ⟨ht.1, ht.2.round hpending hround⟩ hpending'
    rw [herror] at hlast
    cases hlast
  · intro h
    have hclean : ∀ t, s.Reaches t →
        t = .ofReplay t.replay ∧ t.replay.cards.map Card.uuid = s.cards.map Card.uuid :=
      fun t ht => ht.2.ofReplay huuids fun u hu => h u ⟨ht.1, hu⟩
    refine ⟨fun fuel => ?_, fun t ht => ?_, fun t ht hpending => ?_⟩
    · rw [projectedStarts_ok]
      cases hdraining : s.draining with
      | true => exact ⟨_, rfl⟩
      | false =>
        exact ⟨_, projectLooking_eq huuids (fun t ht => h t ⟨hdraining, ht⟩) fuel false⟩
    · obtain ⟨hreplay, hcards⟩ := hclean t ht
      rw [hreplay]
      exact releases_ofReplay hcards
    · obtain ⟨hreplay, hcards⟩ := hclean t ht
      refine ⟨.ofReplay (t.replay.round s.elsewhere).1, (t.replay.round s.elsewhere).2, ?_,
        releases_ofReplay ((Lookups.round_uuids t.replay _).trans hcards)⟩
      rw [hreplay]
      exact Lookups.round_eq (hcards ▸ huuids) (h t ht hpending)

/-! ## A card that has dropped off -/

/-- A job that may be stopped runs on two cards, one of which nvidia-smi no longer reports, and a job
ahead of it waits for the other. -/
def cardDropped : Snapshot where
  config := { gpus := some ["A", "B"] }
  table := gpuTable { gpus := some ["A", "B"] } (.ok ([{ index := some 0, uuid := "A" }], fun _ => false))
  jobs := Dict.ofList
    [("r", { spec := some { jobId := "r", gpus := 2, autoPreempt := true, priority := 80 }
             state := { status := .running, priority := 80, gpus := ["A", "B"] } }),
      ("w", { spec := some { jobId := "w", priority := 10 }
              state := { status := .queued, priority := 10 } })]
  stamp := fun _ => none
  now := fun _ => 0

/-- **A card under a job may drop off nvidia-smi**, and then a stop takes `status` down. -/
theorem cardDropped_fails :
    ¬ ∀ s : Snapshot, s.table.error = none → s.LooksUpKnown := by
  intro h
  obtain ⟨answer, hanswer⟩ := (h cardDropped rfl).answers 2
  have hfails : (cardDropped.projectedStarts 2).isOk = false := by decide +kernel
  rw [hanswer] at hfails
  cases hfails

end Snapshot

end Gpuc.Host
