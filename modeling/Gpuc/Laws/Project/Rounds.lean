import Gpuc.Laws.Plan.Front
import Gpuc.Laws.Project.Excess

/-!
# The job a round stops others for starts in the next one

In the replay no card is on its way back, so until the first job with a gap nothing is held: each job
ahead of it is launched, or is one the cards of the host could never start (`Pool.Hopeless`), and those
are passed over again in the next round (`stuck_split`, `walkTo_hopeless`). The cards the stuck job was
offered are given to nobody, and the stops bring it the rest, so the next round launches it
(`launches_of_stops`).
-/

set_option autoImplicit false

namespace Gpuc.Host

open Gpuc.Basis

/-! ## A walk with nothing coming back -/

/-- The host's cards could never start this job, whoever ends. -/
def Pool.Hopeless (pool : Pool) (r : Request) : Prop :=
  (Walk.start pool).failureFor r ≠ none ∨ pool.oursFor r < r.gpus

theorem Pool.Spent.hopeless {pool later : Pool} (h : pool.Spent later) {r : Request} :
    later.Hopeless r ↔ pool.Hopeless r := by
  simp only [Pool.Hopeless, Pool.oursFor, Walk.failureFor, Walk.start, h.ownedPresent,
    h.sharedVisible, h.ownedAbsent, h.sharedAbsent, h.theirs]

/-- **Nothing is held, nothing is coming back, and no gap has been passed.** -/
structure Walk.Clear (w : Walk) : Prop where
  distinct : w.pool.Distinct
  coming : w.pool.coming = []
  held : ∀ c, w.held c = none
  stuck : w.stuck = false

namespace Walk.Clear
variable {w : Walk} {r : Request}

theorem shortFor (h : w.Clear) : w.shortFor r = r.gpus - (w.freeFor r).length :=
  shortFor_of_noneComing h.coming r

/-- What a turn that holds nothing leaves. -/
theorem next (h : w.Clear) {after : Walk} (hspent : w.pool.Spent after.pool)
    (hheld : after.held = w.held) (hstuck : after.stuck = w.stuck) : after.Clear :=
  ⟨hspent.distinct h.distinct, hspent.coming.trans h.coming, fun c => hheld ▸ h.held c,
    hstuck.trans h.stuck⟩

/-- **One turn**: the job waits with a gap, or is started on cards nobody holds, or is hopeless. -/
theorem turn (h : w.Clear) (r : Request) :
    (w.turn r = w.waitFor r ∧ w.shortFor r ≠ 0) ∨
      ((w.turn r).2.Clear ∧ ((∃ cards, (w.turn r).1 = .assigned r.jobId cards []) ∨
        (w.pool.Hopeless r ∧ ((∃ reason, (w.turn r).1 = .fails r.jobId reason) ∨
          ∃ short, (w.turn r).1 = .steppedOver r.jobId short)))) := by
  have hturned := Walk.turned w r
  generalize hd : (w.turn r).1 = d at hturned ⊢
  generalize hafter : (w.turn r).2 = after at hturned ⊢
  cases hturned with
  | @fails reason hcap =>
    refine .inr ⟨h, .inr ⟨.inl fun hnone => ?_, .inl ⟨reason, rfl⟩⟩⟩
    have hsame : (Walk.start w.pool).failureFor r = w.failureFor r := rfl
    rw [hsame, hcap] at hnone
    cases hnone
  | fits =>
    exact .inr ⟨h.next ((spent_readFor w r).trans (Pool.spent_take _ _)) (readFor_held w r)
      (readFor_stuck w r), .inl ⟨_, rfl⟩⟩
  | passed hcap hfree hours =>
    refine .inr ⟨h.next (spent_readFor w r) (readFor_held w r) (readFor_stuck w r),
      .inr ⟨.inr ?_, .inr ⟨_, rfl⟩⟩⟩
    rwa [oursFor_of_short hfree] at hours
  | fills hcap hfree _ _ _ hfill =>
    rw [fill_eq_none h.distinct (fun c job hc => by rw [h.held c] at hc; cases hc) hfree] at hfill
    cases hfill
  | waits hcap hfree =>
    refine .inl ⟨Prod.ext hd hafter, ?_⟩
    rw [h.shortFor]
    omega

end Walk.Clear

theorem launches_append {rs rs' : List Request} {ds ds' : List Decision}
    (h : rs.length = ds.length) :
    launches (rs ++ rs') (ds ++ ds') = launches rs ds ++ launches rs' ds' := by
  induction rs generalizing ds with
  | nil =>
    obtain rfl := List.length_eq_zero_iff.mp h.symm
    rfl
  | cons r rs ih =>
    cases ds with
    | nil => cases h
    | cons d ds =>
      have hrest := ih (Nat.succ.inj h)
      cases d with
      | assigned => exact congrArg (_ :: ·) hrest
      | _ => exact hrest

/-- **Up to the first job with a gap** every job is launched, or is hopeless. -/
theorem stuck_split {w : Walk} (hw : w.Clear) (rs : List Request)
    (h : stuckPreempts (planFrom w rs).1 ≠ []) :
    ∃ before r rest, rs = before ++ r :: rest ∧ (planFrom w before).2.Clear ∧
      (planFrom w before).2.turn r = (planFrom w before).2.waitFor r ∧
      ((planFrom w before).2.stopsFor r ((planFrom w before).2.shortFor r)).map
        Preemptable.jobId = stuckPreempts (planFrom w rs).1 ∧
      ∀ q ∈ before, q ∈ (launches before (planFrom w before).1).map Prod.fst ∨
        w.pool.Hopeless q := by
  induction rs generalizing w with
  | nil => exact absurd rfl h
  | cons r rs ih =>
    rw [planFrom_cons] at h ⊢
    rcases hw.turn r with ⟨hwaits, hgap⟩ | ⟨hclear, hgoes⟩
    · refine ⟨[], r, rs, rfl, hw, hwaits, ?_, fun q hq => absurd hq List.not_mem_nil⟩
      rw [hwaits]
      simp only [Walk.waitFor, Walk.wait, stuckPreempts, hgap, ne_eq, not_false_eq_true, if_true,
        planFrom, Walk.stopsFor, Walk.readFor_stuck, Walk.readFor_preemptable]
    · have hspent := (Walk.turned w r).spent
      have hskip : stuckPreempts ((w.turn r).1 :: (planFrom (w.turn r).2 rs).1)
          = stuckPreempts (planFrom (w.turn r).2 rs).1 := by
        rcases hgoes with ⟨cards, hd⟩ | ⟨-, ⟨reason, hd⟩ | ⟨short, hd⟩⟩ <;> rw [hd] <;> rfl
      rw [hskip] at h ⊢
      obtain ⟨before, r', rest, rfl, hclear', hwaits, hstops, hbefore⟩ := ih hclear h
      refine ⟨r :: before, r', rest, rfl, hclear', hwaits, hstops, ?_⟩
      rw [planFrom_cons]
      refine List.forall_mem_cons.mpr ⟨?_, fun q hq => ?_⟩
      · rcases hgoes with ⟨cards, hd⟩ | ⟨hhopeless, -⟩
        · rw [hd]
          exact .inl List.mem_cons_self
        · exact .inr hhopeless
      · refine (hbefore q hq).imp (fun hl => ?_) hspent.hopeless.mp
        generalize (w.turn r).1 = d
        cases d with
        | assigned => exact List.mem_cons_of_mem _ hl
        | _ => exact hl

/-- A request the cards offered are enough for is started on them. -/
theorem Walk.turn_fits {w : Walk} {r : Request} (hcap : w.failureFor r = none)
    (hfree : (w.freeFor r).length = r.gpus) :
    (w.turn r).1 = .assigned r.jobId (w.freeFor r) [] := by
  simp only [turn, hcap, hfree, if_true]

/-- **Hopeless jobs are passed over**, and leave a pool that has been read as it is. -/
theorem walkTo_hopeless {pool : Pool} {free : List Uuid} (hread : pool.sharedFree = some free)
    {rs : List Request} (h : ∀ r ∈ rs, pool.Hopeless r)
    (hfew : ∀ r ∈ rs, (((Walk.start pool).offered r).length : Int) ≤ pool.oursFor r) :
    walkTo pool rs = Walk.start pool := by
  induction rs using List.reverseRecOn with
  | nil => rfl
  | append_singleton rs r ih =>
    have hmem : r ∈ rs ++ [r] := List.mem_append_right _ (List.mem_singleton_self r)
    rw [walkTo_snoc, ih (fun q hq => h q (List.mem_append_left _ hq))
      fun q hq => hfew q (List.mem_append_left _ hq)]
    cases hcap : (Walk.start pool).failureFor r with
    | some reason => simp only [Walk.turn, hcap]
    | none =>
      have hours := (h r hmem).resolve_left (not_not.mpr hcap)
      have hshort : ((Walk.start pool).freeFor r).length < r.gpus := by
        have hoffer := hfew r hmem
        rw [Walk.freeFor_eq, List.length_take]
        omega
      rw [Walk.turn_passed hcap hshort (by rw [Walk.oursFor_of_short hshort]; exact hours)]
      have hpool : pool.borrowable.2 = pool := congrArg Prod.snd (Pool.borrowable_of_some hread)
      show (Walk.start pool).readFor r = Walk.start pool
      unfold Walk.readFor
      split
      · rw [Walk.start, hpool]
      · rfl

namespace Replay

/-! ## The cards stay what they are -/

/-- The same cards, whenever each comes free. -/
def SameCards (s s' : Replay) : Prop :=
  s'.cards.map (fun card => (card.uuid, card.shared))
    = s.cards.map fun card => (card.uuid, card.shared)

theorem SameCards.trans {s s' s'' : Replay} (h : s.SameCards s') (h' : s'.SameCards s'') :
    s.SameCards s'' :=
  Eq.trans h' h

theorem sameCards_release (s : Replay) (gpus : List Uuid) (time : Option Seconds) :
    s.SameCards (s.release gpus time) := by
  show (s.cards.map _).map _ = _
  rw [List.map_map]
  refine List.map_congr_left fun card _ => ?_
  by_cases h : card.uuid ∈ gpus <;> simp [h]

theorem sameCards_stop (s : Replay) (jobId : JobId) : s.SameCards (s.stop jobId) := by
  cases h : s.stoppable.get? jobId with
  | none => rw [stop_eq_none h]; rfl
  | some entry => rw [stop_eq h]; exact sameCards_release s _ _

theorem sameCards_stopAll (s : Replay) (jobIds : List JobId) : s.SameCards (s.stopAll jobIds) := by
  show s.SameCards (jobIds.foldl stop s)
  induction jobIds generalizing s with
  | nil => rfl
  | cons j js ih => exact (sameCards_stop s j).trans (ih _)

theorem sameCards_launchAll (s : Replay) (ls : List (Request × List Uuid)) :
    s.SameCards (s.launchAll ls) := by
  induction ls generalizing s with
  | nil => rfl
  | cons l ls ih => exact (sameCards_release s l.2 _).trans (ih _)

/-- A count of the cards that does not look at their release. -/
theorem SameCards.countP {s s' : Replay} (h : s.SameCards s') (p : Uuid → Bool → Bool) :
    (s'.cards.countP fun card => p card.uuid card.shared)
      = s.cards.countP fun card => p card.uuid card.shared := by
  have hcount := congrArg (List.countP fun card : Uuid × Bool => p card.1 card.2) h
  rwa [List.countP_map, List.countP_map] at hcount

/-- What the cards of the host are enough for does not change. -/
theorem SameCards.failureFor {s s' : Replay} (h : s.SameCards s') (e : Elsewhere) (r : Request) :
    (Walk.start (s'.pool e)).failureFor r = (Walk.start (s.pool e)).failureFor r := by
  have howned := h.countP fun _ shared => !shared
  have hshared := h.countP fun _ shared => shared
  simp only [Walk.failureFor, Walk.start, pool, howned, hshared]

theorem SameCards.hopeless {s s' : Replay} (h : s.SameCards s') (e : Elsewhere) {r : Request} :
    (s'.pool e).Hopeless r ↔ (s.pool e).Hopeless r := by
  have howned := h.countP fun _ shared => !shared
  have hshared := h.countP fun _ shared => shared
  rw [Pool.Hopeless, Pool.Hopeless, h.failureFor e r]
  simp only [Pool.oursFor, pool, howned, hshared, Pool.borrowable]

/-! ## What the launches of a round leave -/

/-- What is pending once the launches are made. -/
theorem launchAll_pending {s : Replay} (h : s.pending.Nodup) (ls : List (Request × List Uuid)) :
    (s.launchAll ls).pending = s.pending.filter fun r => r ∉ ls.map Prod.fst := by
  induction ls generalizing s with
  | nil => simp [launchAll]
  | cons l ls ih =>
    have hrest := ih (s := s.start l.1 l.2) (h.erase l.1)
    rw [start_pending, h.erase_eq_filter, List.filter_filter] at hrest
    refine hrest.trans (List.filter_congr fun r _ => ?_)
    rw [Bool.eq_iff_iff, Bool.and_eq_true, decide_eq_true_iff, decide_eq_true_iff, bne_iff_ne,
      List.map_cons, List.mem_cons, not_or, and_comm]

@[simp] theorem launchAll_decisions (s : Replay) (ls : List (Request × List Uuid)) :
    (s.launchAll ls).decisions = s.decisions := by
  induction ls generalizing s with
  | nil => rfl
  | cons l ls ih => exact ih _

@[simp] theorem launchAll_clock (s : Replay) (ls : List (Request × List Uuid)) :
    (s.launchAll ls).clock = s.clock := by
  induction ls generalizing s with
  | nil => rfl
  | cons l ls ih => exact ih _

theorem launched_pending {jobs : List Request} {s : Replay} (h : Sound jobs s) (e : Elsewhere) :
    (s.launched e).pending
      = s.pending.filter fun r => r ∉ (s.roundLaunches e).map Prod.fst := by
  rw [launched_eq h e]
  exact launchAll_pending (s := s.planned e) h.ids.of_map _

theorem launched_clock {jobs : List Request} {s : Replay} (h : Sound jobs s) (e : Elsewhere) :
    (s.launched e).clock = s.clock := by
  rw [launched_eq h e, launchAll_clock]
  rfl

theorem sameCards_launched {jobs : List Request} {s : Replay} (h : Sound jobs s) (e : Elsewhere) :
    s.SameCards (s.launched e) := by
  rw [launched_eq h e]
  exact sameCards_launchAll (s.planned e) _

/-- A card no launch is on stays free. -/
theorem IsFree.launchAll {s : Replay} {c : Uuid} (h : s.IsFree c) {ls : List (Request × List Uuid)}
    (hc : ∀ l ∈ ls, c ∉ l.2) : (s.launchAll ls).IsFree c := by
  induction ls generalizing s with
  | nil => exact h
  | cons l ls ih =>
    exact ih (h.start l.1 (hc l List.mem_cons_self)) fun m hm => hc m (List.mem_cons_of_mem l hm)

/-- A job that may be stopped may be stopped after the launches too. -/
theorem launched_stoppable {jobs : List Request} {s : Replay} (h : Sound jobs s) (e : Elsewhere)
    {jobId : JobId} {entry : Stoppable} (hentry : s.current.get? jobId = some entry) :
    (s.launched e).stoppable.get? jobId = some entry := by
  rw [launched_eq h e]
  refine ((launchable h e).induct
    (motive := fun t => Sound jobs t ∧ t.stoppable.get? jobId = some entry)
    ⟨h.planned e, hentry⟩ ?_).2
  intro t r gpus ⟨ht, hget⟩ hr _ hfree
  refine ⟨ht.start hr fun c hc => (hfree c hc).mem_uuids, ?_⟩
  have hne : jobId ≠ r.jobId := fun heq => by
    rw [heq, ht.apart r hr] at hget
    cases hget
  rw [start_stoppable]
  split
  · rw [Dict.get?_set, if_neg hne, hget]
  · exact hget

/-- The cards of a round's pool that a request is offered at its start. -/
theorem length_offered (s : Replay) (e : Elsewhere) (r : Request) :
    ((Walk.start (s.pool e)).offered r).length = s.usable r.borrows := by
  have hread : (s.pool e).borrowable.1
      = (s.free.filter fun card => card.shared).map Card.uuid := rfl
  rw [Walk.offered, Walk.unheld_start, Walk.unheld_start, usable]
  show ((s.pool e).ownedFree ++ if r.borrows then (s.pool e).borrowable.1 else []).length = _
  rw [hread, pool, free]
  simp only [List.filter_filter, List.length_append, List.length_map]
  cases r.borrows with
  | false =>
    simp only [Bool.false_eq_true, if_false, List.length_nil, Nat.add_zero, Bool.false_or,
      ← List.countP_eq_length_filter]
    exact List.countP_congr fun card _ => by rw [Bool.and_comm]
  | true =>
    simp only [if_true, List.length_map, Bool.true_or, Bool.and_true,
      ← List.countP_eq_length_filter]
    have hsplit := List.countP_eq_countP_filter_add s.cards (fun card => card.freeBy s.clock)
      fun card => !card.shared
    rw [List.countP_filter, List.countP_filter] at hsplit
    rw [hsplit]
    refine congrArg₂ (· + ·) (List.countP_congr fun card _ => ?_)
      (List.countP_congr fun card _ => ?_) <;>
    cases card.shared <;> simp

theorem usable_le_oursFor (s : Replay) (e : Elsewhere) (r : Request) :
    (s.usable r.borrows : Int) ≤ (s.pool e).oursFor r := by
  have hle : s.usable r.borrows ≤ s.cards.countP fun card => r.borrows || !card.shared :=
    List.countP_mono_left fun card _ hcard => (Bool.and_eq_true_iff.mp hcard).2
  have hours : ((s.cards.countP fun card => r.borrows || !card.shared : Nat) : Int)
      = (s.pool e).oursFor r := by
    rw [Pool.oursFor, pool, Pool.borrowable]
    cases r.borrows with
    | false => simp
    | true =>
      have hsplit := List.length_eq_countP_add_countP (fun card : Card => card.shared)
        (l := s.cards)
      have hnot : s.cards.countP (fun card => decide ¬ card.shared = true)
          = s.cards.countP fun card => !card.shared :=
        List.countP_congr fun card _ => by simp
      simp only [Bool.true_or, List.countP_true, if_true]
      omega
  omega

/-- **A round launches a job the free cards are enough for**, behind hopeless ones. -/
theorem launches_behind_hopeless {s : Replay} {e : Elsewhere} {front behind : List Request}
    {r : Request} (hpending : s.pending = front ++ r :: behind)
    (hfront : ∀ q ∈ front, ((s.planned e).pool e).Hopeless q)
    (hcap : (Walk.start ((s.planned e).pool e)).failureFor r = none)
    (henough : r.gpus ≤ s.usable r.borrows) :
    r ∈ (s.roundLaunches e).map Prod.fst := by
  have husable : ∀ b, (s.planned e).usable b = s.usable b := fun _ => rfl
  have hwalk : walkTo ((s.planned e).pool e) front = Walk.start ((s.planned e).pool e) := by
    refine walkTo_hopeless rfl hfront fun q _ => ?_
    rw [length_offered]
    exact usable_le_oursFor _ e q
  have hfree : ((Walk.start ((s.planned e).pool e)).freeFor r).length = r.gpus := by
    rw [Walk.freeFor_eq, List.length_take, length_offered, husable]
    omega
  have hdecisions : (s.planned e).decisions = plan s.pending ((s.planned e).pool e) := rfl
  rw [roundLaunches, hdecisions, hpending, plan_split, launches_append (by simp [plan]), hwalk,
    Walk.turn_fits hcap hfree, List.map_append]
  exact List.mem_append_right _ List.mem_cons_self

/-! ## A round that stops jobs -/

section Stopped
variable {jobs : List Request} {s : Replay} (h : Sound jobs s) (e : Elsewhere)
include h

/-- The jobs a pass may stop are those that have not ended. -/
theorem stopped_entries {ps : List Preemptable}
    (hps : ∀ p ∈ ps, p ∈ ((s.planned e).pool e).preemptable) :
    ∃ entries : List Stoppable, entries.map Stoppable.job = ps ∧
      ∀ entry ∈ entries, s.current.get? entry.job.jobId = some entry := by
  induction ps with
  | nil => exact ⟨[], rfl, fun _ hentry => absurd hentry List.not_mem_nil⟩
  | cons p ps ih =>
    obtain ⟨entries, rfl, hentries⟩ := ih fun q hq => hps q (List.mem_cons_of_mem p hq)
    obtain ⟨entry, hentry, rfl⟩ := List.mem_map.mp (hps p List.mem_cons_self)
    obtain ⟨jobId, hget⟩ := Dict.mem_values.mp hentry
    have hname : entry.job.jobId = jobId := (h.filter _).named jobId entry hget
    exact ⟨entry :: entries, rfl, List.forall_mem_cons.mpr ⟨hname ▸ hget, hentries⟩⟩

theorem preemptable_nodup :
    (((s.planned e).pool e).preemptable.map Preemptable.jobId).Nodup := by
  have hkeys : ((s.planned e).pool e).preemptable.map Preemptable.jobId = s.current.keys := by
    show (s.current.values.map Stoppable.job).map Preemptable.jobId = s.current.keys
    rw [Dict.values, List.map_map, List.map_map]
    exact List.map_congr_left fun entry hentry =>
      (h.filter _).named entry.1 entry.2 (Dict.get?_eq_some.mpr hentry)
  rw [hkeys]
  exact s.current.nodup_keys

end Stopped

/-- The stopped jobs go to the end of the queue. -/
theorem stops_pending {entries : List Stoppable} {s : Replay}
    (hids : (entries.map fun entry => entry.job.jobId).Nodup)
    (hentries : ∀ entry ∈ entries, s.stoppable.get? entry.job.jobId = some entry) :
    ((entries.map fun entry => entry.job.jobId).foldl stop s).pending
      = s.pending ++ entries.map Stoppable.again := by
  induction entries generalizing s with
  | nil => simp
  | cons entry entries ih =>
    have hget := hentries entry List.mem_cons_self
    rw [List.map_cons] at hids
    obtain ⟨hnot, hrest⟩ := List.nodup_cons.mp hids
    have hothers : ∀ f ∈ entries, (s.stop entry.job.jobId).stoppable.get? f.job.jobId = some f := by
      intro f hf
      have hne : f.job.jobId ≠ entry.job.jobId := fun heq =>
        hnot (List.mem_map.mpr ⟨f, hf, heq⟩)
      rw [stop_eq hget]
      show (s.stoppable.erase entry.job.jobId).get? f.job.jobId = some f
      rw [Dict.get?_erase, if_neg hne, hentries f (List.mem_cons_of_mem entry hf)]
    rw [List.map_cons, List.foldl_cons, ih hrest hothers, stop_eq hget, List.append_assoc]
    rfl

/-- The free cards a stuck job was offered are free, and its own to use, once the round has launched
what it launches. -/
theorem freeFor_usable {jobs : List Request} {s : Replay} (h : Sound jobs s) (e : Elsewhere)
    {before rest : List Request} {r : Request} (hpending : s.pending = before ++ r :: rest)
    (hturn : (walkTo ((s.planned e).pool e) before).turn r
      = (walkTo ((s.planned e).pool e) before).waitFor r)
    (hcovers : r.jobId ∈ ((walkTo ((s.planned e).pool e) before).waitFor r).2.covered) :
    ((walkTo ((s.planned e).pool e) before).freeFor r).length
      ≤ (s.launched e).usable r.borrows := by
  have hpool : ((s.planned e).pool e).Distinct := pool_distinct (s.planned e) e h.uuids
  have hspent := walkTo_spent ((s.planned e).pool e) before
  have hlaunched := h.launched e
  have hsame := sameCards_launched h e
  have hshared : (s.launched e).isShared = s.isShared := by
    funext c
    rw [Bool.eq_iff_iff]
    have hcount := hsame.countP fun uuid shared => decide (uuid = c ∧ shared = true)
    simp only [isShared, List.any_eq_true, ← List.countP_pos_iff, hcount]
  have hoffer : ∀ c ∈ (walkTo ((s.planned e).pool e) before).freeFor r,
      (s.launched e).IsFree c ∧ (r.borrows || !s.isShared c) = true := by
    intro c hc
    have hfree := (Walk.mem_freeFor _ r hc).2
    have hin : c ∈ ((s.planned e).pool e).ownedFree ∨
        c ∈ ((s.planned e).pool e).borrowable.1 :=
      hfree.imp (fun hf => hspent.owned.subset hf) fun hf => hspent.shared.subset hf.2
    have hnot := freeFor_notGiven hpool rest hcovers hturn hc
    refine ⟨?_, ?_⟩
    · rw [launched_eq h e]
      refine (isFree_of_pool (s.planned e) e hin).launchAll fun l hl hin => ?_
      obtain ⟨-, d, hd, hgpus⟩ := mem_launches hl
      exact hnot d (by rw [← hpending]; exact hd) (hgpus ▸ hin)
    · rcases hfree with howned | ⟨hborrows, -⟩
      · obtain ⟨card, hcard, rfl, -, hown⟩ :=
          (mem_pool_owned (s.planned e) e).mp (hspent.owned.subset howned)
        have hown' : s.isShared card.uuid = false := (isShared_uuid h.uuids hcard).trans hown
        rw [hown', Bool.not_false, Bool.or_true]
      · rw [hborrows, Bool.true_or]
  rw [← countP_uuid_eq hlaunched.uuids (Walk.nodup_freeFor _ r (hspent.distinct hpool))
    fun c hc => (hoffer c hc).1.mem_uuids]
  refine List.countP_mono_left fun card hcard hc => ?_
  obtain ⟨hfree, huse⟩ := hoffer _ (of_decide_eq_true hc)
  rw [← hshared, isShared_uuid hlaunched.uuids hcard] at huse
  exact Bool.and_eq_true_iff.mpr ⟨hfree.freeBy hlaunched.uuids hcard, huse⟩

/-- **The job a round stops others for**: the first with a gap. What it could use once they are
stopped is enough, and those ahead of it in the queue are hopeless. -/
structure Stuck (s : Replay) (e : Elsewhere) (r : Request) (entries : List Stoppable) : Prop where
  names : stuckPreempts (s.planned e).decisions = entries.map fun entry => entry.job.jobId
  distinct : (entries.map fun entry => entry.job.jobId).Nodup
  running : ∀ entry ∈ entries, s.current.get? entry.job.jobId = some entry
  behind : ∀ entry ∈ entries, r.key < entry.job.key
  possible : (Walk.start ((s.planned e).pool e)).failureFor r = none
  frees : r.gpus ≤ (s.launched e).usable r.borrows
    + (entries.map fun entry => entry.job.frees r.borrows).sum
  place : ∃ front back, (s.launched e).pending = front ++ r :: back ∧
    ∀ q ∈ front, ((s.planned e).pool e).Hopeless q

/-- A job that is not started stays in its place in the queue. -/
theorem launched_split {jobs : List Request} {s : Replay} (h : Sound jobs s) (e : Elsewhere)
    {before rest : List Request} {r : Request} (hpending : s.pending = before ++ r :: rest)
    (hgpus : ((walkTo ((s.planned e).pool e) before).turn r).1.waits = true) :
    ∃ back, (s.launched e).pending
      = before.filter (fun q => q ∉ (launches before
          (plan before ((s.planned e).pool e))).map Prod.fst) ++ r :: back := by
  have hnodup : s.pending.Nodup := h.ids.of_map
  have hplan : (s.planned e).decisions = plan s.pending ((s.planned e).pool e) := rfl
  have hall : launches (before ++ r :: rest) (plan before ((s.planned e).pool e)
        ++ ((walkTo ((s.planned e).pool e) before).turn r).1
          :: (planFrom ((walkTo ((s.planned e).pool e) before).turn r).2 rest).1)
      = launches before (plan before ((s.planned e).pool e))
        ++ launches (r :: rest) (((walkTo ((s.planned e).pool e) before).turn r).1
          :: (planFrom ((walkTo ((s.planned e).pool e) before).turn r).2 rest).1) :=
    launches_append (by simp [plan])
  rw [← plan_split, ← hpending, ← hplan] at hall
  generalize hlater : launches (r :: rest) _ = later at hall
  have hfirsts : ∀ q ∈ later.map Prod.fst, q ∈ rest := by
    intro q hq
    rw [← hlater] at hq
    generalize ((walkTo ((s.planned e).pool e) before).turn r).1 = d at hgpus hq
    cases d with
    | holds => exact (launches_sublist rest _).subset hq
    | steppedOver => exact (launches_sublist rest _).subset hq
    | assigned => cases hgpus
    | fails => cases hgpus
  rw [hpending] at hnodup
  obtain ⟨-, hr, hapart⟩ := List.nodup_append.mp hnodup
  have hrest : r ∉ rest := (List.nodup_cons.mp hr).1
  have hbefore : r ∉ before := fun hin => hapart r hin r List.mem_cons_self rfl
  have hkept : r ∉ (s.roundLaunches e).map Prod.fst := by
    rw [roundLaunches, hall, List.map_append, List.mem_append, not_or]
    exact ⟨fun hin => hbefore ((launches_sublist before _).subset hin),
      fun hin => hrest (hfirsts r hin)⟩
  refine ⟨rest.filter fun q => q ∉ (s.roundLaunches e).map Prod.fst, ?_⟩
  rw [launched_pending h e, hpending, List.filter_append, List.filter_cons_of_pos (by simpa using hkept)]
  refine congrArg (· ++ _) (List.filter_congr fun q hq => ?_)
  have hout : q ∉ later.map Prod.fst := fun hin =>
    hapart q hq q (List.mem_cons_of_mem r (hfirsts q hin)) rfl
  rw [roundLaunches, hall, List.map_append]
  simp only [List.mem_append, hout, or_false]

theorem exists_stuck {jobs : List Request} {s : Replay} (h : Sound jobs s) (e : Elsewhere)
    (hstops : stuckPreempts (s.planned e).decisions ≠ []) : ∃ r entries, Stuck s e r entries := by
  have hpool : ((s.planned e).pool e).Distinct := pool_distinct (s.planned e) e h.uuids
  obtain ⟨before, r, rest, hpending, hclear, hturn, hnames, hbefore⟩ :=
    stuck_split (w := Walk.start ((s.planned e).pool e)) ⟨hpool, rfl, fun _ => rfl, rfl⟩ s.pending
      hstops
  have hplan : (s.planned e).decisions
      = (planFrom (Walk.start ((s.planned e).pool e)) s.pending).1 := rfl
  rw [← hplan] at hnames
  change (walkTo ((s.planned e).pool e) before).Clear at hclear
  change (walkTo ((s.planned e).pool e) before).turn r
    = (walkTo ((s.planned e).pool e) before).waitFor r at hturn
  generalize hw : walkTo ((s.planned e).pool e) before = w at hclear hturn
  have hspent : ((s.planned e).pool e).Spent w.pool := hw ▸ walkTo_spent _ before
  replace hnames : (w.stopsFor r (w.shortFor r)).map Preemptable.jobId
      = stuckPreempts (s.planned e).decisions := hw ▸ hnames
  obtain ⟨entries, hjobs, hentries⟩ := stopped_entries h e
    fun p (hp : p ∈ w.stopsFor r (w.shortFor r)) =>
      hspent.preemptable ▸ (mem_stopsFor hp).2.2.1
  have hids : stuckPreempts (s.planned e).decisions
      = entries.map fun entry => entry.job.jobId := by
    rw [← hnames, ← hjobs, List.map_map]
    rfl
  have hsome : w.stopsFor r (w.shortFor r) ≠ [] := fun hnil => hstops <| by
    rw [← hnames, hnil, List.map_nil]
  have hmem : ∀ entry ∈ entries, entry.job ∈ w.stopsFor r (w.shortFor r) := fun entry hentry =>
    hjobs ▸ List.mem_map_of_mem hentry
  obtain ⟨p, hp⟩ := List.exists_mem_of_ne_nil _ hsome
  have hfirst := mem_stopsFor hp
  have henough : w.stopsFor r (w.shortFor r)
      = enoughToStart w.pool.preemptable r.key (w.shortFor r) r.borrows :=
    if_pos ⟨hfirst.2.1, hfirst.1⟩
  have hholds : (w.turn r).1 = .holds r.jobId _ _ _ _ := congrArg Prod.fst hturn
  obtain ⟨-, hcap, -⟩ := turn_of_holds hholds
  have hcovers : r.jobId ∈ (w.waitFor r).2.covered := by
    rw [Walk.waitFor_covered, Walk.stopsFor, Walk.readFor_stuck, Walk.readFor_preemptable,
      ← Walk.stopsFor, if_pos (.inr hsome)]
    exact Finset.mem_insert_self _ _
  obtain ⟨back, hplace⟩ := launched_split h e hpending (by rw [hw, hturn]; rfl)
  refine ⟨r, entries,
    { names := hids
      distinct := ?_
      running := hentries
      behind := fun entry hentry => (mem_stopsFor (hmem entry hentry)).2.2.2
      possible := ?_
      frees := ?_
      place := ⟨_, back, hplace, fun q hq => ?_⟩ }⟩
  · rw [← hids, ← hnames, henough]
    refine enoughToStart_nodup ?_
    rw [hspent.preemptable]
    exact preemptable_nodup h e
  · rw [← hcap, Walk.failureFor, Walk.failureFor, hspent.ownedPresent, hspent.sharedVisible,
      hspent.ownedAbsent, hspent.sharedAbsent]
    rfl
  · have hfree := freeFor_usable h e hpending (hw.symm ▸ hturn) (hw.symm ▸ hcovers)
    have hgap := enoughToStart_frees (henough ▸ hsome)
    rw [← henough, ← hjobs, List.map_map, hclear.shortFor] at hgap
    rw [hw] at hfree
    simp only [Function.comp_def] at hgap
    omega
  · obtain ⟨hin, hnot⟩ := List.mem_filter.mp hq
    exact (hbefore q hin).resolve_left (of_decide_eq_true hnot)

/-- **A round that stops jobs takes excess away, or the next round launches the job they are stopped
for**, and all it has put back in the queue is behind that job. -/
theorem launches_of_stops {jobs : List Request} {s : Replay} (h : Sound jobs s) (e : Elsewhere)
    (hsorted : s.pending.Pairwise (fun a b => a.key ≤ b.key))
    (hstops : stuckPreempts (s.planned e).decisions ≠ []) :
    let after := (s.launched e).stopAll (stuckPreempts (s.planned e).decisions)
    after.excess < s.excess ∨ (after.excess ≤ s.excess ∧
      ∃ r ∈ (s.launched e).pending, r ∈ (after.roundLaunches e).map Prod.fst ∧
        ∀ q ∈ after.pending, q ∉ (s.launched e).pending → r.key < q.key) := by
  obtain ⟨r, entries, hstuck⟩ := exists_stuck h e hstops
  obtain ⟨front, back, hplace, hfront⟩ := hstuck.place
  have hrunning : ∀ entry ∈ entries,
      (s.launched e).stoppable.get? entry.job.jobId = some entry := fun entry hentry =>
    launched_stoppable h e (hstuck.running entry hentry)
  have hlaunched := h.launched e
  have hexcess := excess_stops entries hlaunched hstuck.distinct fun entry hentry =>
    ⟨hrunning entry hentry, (launched_clock h e).symm ▸
      current_live (Dict.mem_values.mpr ⟨_, hstuck.running entry hentry⟩)⟩
  have hbehind : ∀ q ∈ entries.map Stoppable.again, r.key < q.key := by
    intro q hq
    obtain ⟨entry, hentry, rfl⟩ := List.mem_map.mp hq
    rw [(hlaunched.again _ _ (hrunning entry hentry)).2]
    exact hstuck.behind entry hentry
  have hlaunchedSorted : (front ++ [r] ++ back).Pairwise (fun a b => a.key ≤ b.key) := by
    rw [List.append_assoc, List.singleton_append, ← hplace, launched_pending h e]
    exact hsorted.sublist List.filter_sublist
  obtain ⟨hfirst, -, hbefore⟩ := List.pairwise_append.mp hlaunchedSorted
  have hlast : ∀ q ∈ front ++ [r], q.key ≤ r.key := by
    intro q hq
    rcases List.mem_append.mp hq with hin | hin
    · exact (List.pairwise_append.mp hfirst).2.2 q hin r (List.mem_singleton_self r)
    · rw [List.mem_singleton.mp hin]
  have hpending : ((s.launched e).stopAll (stuckPreempts (s.planned e).decisions)).pending
      = front ++ r :: sortedBy Request.key (back ++ entries.map Stoppable.again) := by
    rw [hstuck.names, stopAll, stops_pending hstuck.distinct hrunning, hplace]
    show sortedBy Request.key (front ++ r :: back ++ entries.map Stoppable.again) = _
    rw [← List.singleton_append, ← List.append_assoc front, List.append_assoc,
      sortedBy_append hfirst, List.append_assoc, List.singleton_append]
    intro q hq b hb
    rcases List.mem_append.mp hb with hb | hb
    · exact hbefore q hq b hb
    · exact ((hlast q hq).trans_lt (hbehind b hb)).le
  rw [hstuck.names] at hpending ⊢
  have hle := excess_launched h e
  rcases hexcess with hlt | ⟨hsmall, hfrees⟩
  · exact .inl (lt_of_lt_of_le hlt hle)
  have hsame : s.SameCards ((s.launched e).stopAll (entries.map fun entry => entry.job.jobId)) :=
    (sameCards_launched h e).trans (sameCards_stopAll _ _)
  refine .inr ⟨le_trans hsmall hle, r, ?_, ?_, fun q hq hout => ?_⟩
  · rw [hplace]
    exact List.mem_append_right _ List.mem_cons_self
  · refine launches_behind_hopeless hpending (fun q hq => ?_) ?_
      (hstuck.frees.trans (hfrees r.borrows))
    · exact (SameCards.hopeless (s := s.planned e) hsame e).mpr (hfront q hq)
    · exact (SameCards.failureFor (s := s.planned e) hsame e r).trans hstuck.possible
  · rw [hpending] at hq
    rw [hplace] at hout
    refine hbehind q ?_
    simp only [List.mem_append, List.mem_cons, mem_sortedBy] at hq hout
    tauto

end Replay

end Gpuc.Host
