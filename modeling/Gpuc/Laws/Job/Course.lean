import Gpuc.Host.Attempt
import Mathlib.Data.List.Infix

/-!
# The course of an attempt

What a runner may do is a machine of a few stages (`Stage.next`): phases in the order of the plan, each
after the one before it has exited with 0 and nothing was asked of the attempt; then nothing but the end,
which is entered once. What a record says of the attempt behind it follows from that alone
(`disciplined_of_course`).
-/

set_option autoImplicit false

namespace Gpuc.Host.Attempt

open Gpuc.Basis

/-! ## What a runner may do -/

/-- `setup`, where the spec has one. -/
def setupPhases (g : Given) : List Phase :=
  if (g.spec.setup.filter fun text => text ≠ "").isSome then [.setup] else []

/-- The GPU check, where there are cards to check. -/
def preflightPhases (g : Given) : List Phase :=
  if g.deps.preflight && !g.assigned.isEmpty then [.preflight] else []

/-- What comes before `main`. -/
def beforeMain (g : Given) : List Phase := setupPhases g ++ preflightPhases g

/-- The phases of a job, in order. -/
def plan (g : Given) : List Phase := beforeMain g ++ [.main]

/-- **Where an attempt stands.** -/
inductive Stage where
  | unclaimed
  /-- These phases are over, each with 0, and nothing was asked of the attempt. -/
  | ready (done : List Phase)
  | during (done : List Phase) (phase : Phase)
  /-- No phase is started any more. -/
  | off (done : List Phase) (signalled : Bool)
  | ending (done : List Phase) (outcome : Outcome) (synced : Bool)
  | closed

/-- What the final sync makes of an outcome. -/
def afterSync (outcome : Outcome) : Option SyncProblem → Outcome
  | none => outcome
  | some problem => (blame outcome problem.reason []).1

/-- May an attempt that has come this far end so, with nothing in its way? -/
def MayEnd (g : Given) (done : List Phase) (outcome : Outcome) : Prop :=
  (outcome.status = .succeeded → done = plan g ∧ outcome.ran = true) ∧
    (outcome.ran = true → beforeMain g <+: done)

instance (g : Given) (done : List Phase) (outcome : Outcome) : Decidable (MayEnd g done outcome) :=
  inferInstanceAs (Decidable (_ ∧ _))

/-- **The step of an attempt**, if it may take it. -/
def Stage.next (g : Given) : Stage → Event → Option Stage
  | .unclaimed, .claimed => some (.ready [])
  | .ready done, .spawned phase =>
    if done ++ [phase] <+: plan g then some (.during done phase) else none
  | .ready done, .reported _ => some (.ready done)
  | .ready done, .stops _ => some (.off done false)
  | .ready done, .signalled => some (.off done true)
  | .ready done, .finalizing outcome =>
    if MayEnd g done outcome then some (.ending done outcome false) else none
  | .during done phase, .reported _ => some (.during done phase)
  | .during done phase, .looked _ => some (.during done phase)
  | .during done phase, .reread _ => some (.during done phase)
  | .during done _, .stops _ => some (.off done false)
  | .during done _, .signalled => some (.off done true)
  | .during done phase, .exited other code =>
    if other ≠ phase then none
    else if code = 0 then some (.ready (done ++ [phase]))
    else some (.off done false)
  | .off done signalled, .reported _ => some (.off done signalled)
  | .off done signalled, .stops _ => some (.off done signalled)
  | .off done false, .signalled => some (.off done true)
  | .off done false, .exited _ _ => some (.off done false)
  | .off done _, .finalizing outcome =>
    if outcome.status ≠ .succeeded ∧ MayEnd g done outcome then some (.ending done outcome false)
    else none
  | .ending done outcome synced, .reported _ => some (.ending done outcome synced)
  | .ending done outcome false, .synced problem =>
    if outcome.ran = true then some (.ending done (afterSync outcome problem) true) else none
  | .ending _ outcome synced, .ended written =>
    if written.status = .succeeded → outcome.status = .succeeded ∧ synced = true then some .closed
    else none
  | _, _ => none

/-- Where these events lead. -/
def courseOf (g : Given) (log : List Event) : Option Stage := log.foldlM (Stage.next g) .unclaimed

theorem courseOf_append {g : Given} {log more : List Event} :
    courseOf g (log ++ more) = (courseOf g log).bind fun stage => more.foldlM (Stage.next g) stage :=
  List.foldlM_append

theorem courseOf_concat {g : Given} {log : List Event} {e : Event} :
    courseOf g (log ++ [e]) = (courseOf g log).bind fun stage => stage.next g e := by
  rw [courseOf_append]
  congr 1
  funext stage
  rw [List.foldlM_cons]
  cases stage.next g e <;> rfl

theorem courseOf_step {g : Given} {log : List Event} {e : Event} {stage stage' : Stage}
    (h : courseOf g log = some stage) (hnext : stage.next g e = some stage') :
    courseOf g (log ++ [e]) = some stage' := by
  rw [courseOf_concat, h]
  exact hnext

/-- The job is this runner's. -/
def Stage.claimed : Stage → Bool
  | .unclaimed => false
  | .ready _ | .during _ _ | .off _ _ | .ending _ _ _ | .closed => true

/-- The stages in which a runner writes reports. -/
def Stage.reports : Stage → Bool
  | .unclaimed | .closed => false
  | .ready _ | .during _ _ | .off _ _ | .ending _ _ _ => true

theorem Stage.claimed_of_reports {stage : Stage} (h : stage.reports = true) : stage.claimed = true := by
  cases stage with
  | unclaimed => cases h
  | _ => rfl

/-- What is behind an attempt that may still be asked to stop. -/
def Stage.done? : Stage → Option (List Phase)
  | .ready done | .during done _ | .off done _ => some done
  | .unclaimed | .ending _ _ _ | .closed => none

/-- How far an attempt has come. -/
def Stage.rank : Stage → Nat
  | .unclaimed => 0
  | .ready _ | .during _ _ | .off _ false => 1
  | .off _ true => 2
  | .ending _ _ false => 3
  | .ending _ _ true => 4
  | .closed => 5

theorem Stage.rank_le_of_done {stage : Stage} {done : List Phase} (h : stage.done? = some done) :
    stage.rank ≤ 3 := by
  cases stage with
  | ready | during => exact Nat.le_of_ble_eq_true rfl
  | off done signalled => cases signalled <;> exact Nat.le_of_ble_eq_true rfl
  | _ => cases h

/-- The phase that is started. -/
def Event.spawned? : Event → Option Phase
  | .spawned phase => some phase
  | _ => none

/-- The phase that is over, and its code. -/
def Event.exited? : Event → Option (Phase × Int)
  | .exited phase code => some (phase, code)
  | _ => none

/-- What only tells of an attempt. -/
def Event.tells : Event → Bool
  | .looked _ | .reread _ | .reported _ => true
  | _ => false

/-- Is the attempt asked to stop? -/
def Event.asks : Event → Bool
  | .stops _ | .signalled => true
  | _ => false

def Event.isClaimed : Event → Bool
  | .claimed => true
  | _ => false

def Event.isSignalled : Event → Bool
  | .signalled => true
  | _ => false

def Event.isFinalizing : Event → Bool
  | .finalizing _ => true
  | _ => false

def Event.isSynced : Event → Bool
  | .synced _ => true
  | _ => false

def Event.isEnded : Event → Bool
  | .ended _ => true
  | _ => false

/-! ## Where an event may be taken, and where it leads -/

section Next
variable {g : Given} {stage stage' : Stage} {e : Event}

theorem next_claimed (h : stage.next g .claimed = some stage') :
    stage = .unclaimed ∧ stage' = .ready [] := by
  cases stage with
  | unclaimed => exact ⟨rfl, (Option.some.inj h).symm⟩
  | off done signalled => cases signalled <;> cases h
  | ending done outcome synced => cases synced <;> cases h
  | _ => cases h

theorem next_spawned {phase : Phase} (h : stage.next g (.spawned phase) = some stage') :
    ∃ done, stage = .ready done ∧ stage' = .during done phase ∧ done ++ [phase] <+: plan g := by
  cases stage with
  | ready done =>
    rw [Stage.next] at h
    split at h
    · next hplan => exact ⟨done, rfl, (Option.some.inj h).symm, hplan⟩
    · cases h
  | off done signalled => cases signalled <;> cases h
  | ending done outcome synced => cases synced <;> cases h
  | _ => cases h

theorem next_finalizing {outcome : Outcome} (h : stage.next g (.finalizing outcome) = some stage') :
    ∃ done, stage' = .ending done outcome false ∧ MayEnd g done outcome ∧
      (stage = .ready done ∨ outcome.status ≠ .succeeded ∧ ∃ signalled, stage = .off done signalled) := by
  cases stage with
  | ready done =>
    rw [Stage.next] at h
    split at h
    · next hmay => exact ⟨done, (Option.some.inj h).symm, hmay, .inl rfl⟩
    · cases h
  | off done signalled =>
    have hnext : stage' = .ending done outcome false ∧ outcome.status ≠ .succeeded ∧
        MayEnd g done outcome := by
      cases signalled <;>
      · rw [Stage.next] at h
        split at h
        · next hmay => exact ⟨(Option.some.inj h).symm, hmay⟩
        · cases h
    exact ⟨done, hnext.1, hnext.2.2, .inr ⟨hnext.2.1, signalled, rfl⟩⟩
  | ending done outcome synced => cases synced <;> cases h
  | _ => cases h

theorem next_synced {problem : Option SyncProblem} (h : stage.next g (.synced problem) = some stage') :
    ∃ done outcome, stage = .ending done outcome false ∧ outcome.ran = true ∧
      stage' = .ending done (afterSync outcome problem) true := by
  cases stage with
  | ending done outcome synced =>
    cases synced with
    | false =>
      rw [Stage.next] at h
      split at h
      · next hran => exact ⟨done, outcome, rfl, hran, (Option.some.inj h).symm⟩
      · cases h
    | true => cases h
  | off done signalled => cases signalled <;> cases h
  | _ => cases h

theorem next_ended {written : JobState} (h : stage.next g (.ended written) = some stage') :
    ∃ done outcome synced, stage = .ending done outcome synced ∧ stage' = .closed ∧
      (written.status = .succeeded → outcome.status = .succeeded ∧ synced = true) := by
  cases stage with
  | ending done outcome synced =>
    refine ⟨done, outcome, synced, rfl, ?_⟩
    cases synced <;>
    · rw [Stage.next] at h
      split at h
      · next hmay => exact ⟨(Option.some.inj h).symm, hmay⟩
      · cases h
  | off done signalled => cases signalled <;> cases h
  | _ => cases h

theorem next_exited {phase : Phase} {code : Int} (h : stage.next g (.exited phase code) = some stage') :
    ∃ done, (stage = .during done phase ∧ code = 0 ∧ stage' = .ready (done ++ [phase])) ∨
      (stage.done? = some done ∧ stage' = .off done false ∧ stage.rank = 1) := by
  cases stage with
  | during done other =>
    refine ⟨done, ?_⟩
    rw [Stage.next] at h
    split at h
    · cases h
    · next hphase =>
      obtain rfl := not_not.mp hphase
      split at h
      · next hcode => exact .inl ⟨rfl, hcode, (Option.some.inj h).symm⟩
      · exact .inr ⟨rfl, (Option.some.inj h).symm, rfl⟩
  | off done signalled =>
    cases signalled with
    | false => exact ⟨done, .inr ⟨rfl, (Option.some.inj h).symm, rfl⟩⟩
    | true => cases h
  | ending done outcome synced => cases synced <;> cases h
  | _ => cases h

/-- Where an attempt is asked to stop, no other phase is started. -/
theorem next_asks (hasks : e.asks = true) (h : stage.next g e = some stage') :
    ∃ done, stage.done? = some done ∧ stage.rank ≤ stage'.rank ∧
      ∃ signalled, stage' = .off done signalled := by
  have hle : ∀ {m n : Nat}, Nat.ble m n = true → m ≤ n := Nat.le_of_ble_eq_true
  cases e with
  | stops | signalled =>
    cases stage with
    | ready done | during done phase =>
      cases h
      exact ⟨done, rfl, hle rfl, _, rfl⟩
    | off done signalled =>
      cases signalled <;> cases h <;> exact ⟨done, rfl, hle rfl, _, rfl⟩
    | ending done outcome synced => cases synced <;> cases h
    | _ => cases h
  | _ => cases hasks

theorem next_signalled (h : stage.next g .signalled = some stage') :
    stage.rank = 1 ∧ ∃ done, stage' = .off done true := by
  cases stage with
  | ready done | during done phase => exact ⟨rfl, done, (Option.some.inj h).symm⟩
  | off done signalled =>
    cases signalled with
    | false => exact ⟨rfl, done, (Option.some.inj h).symm⟩
    | true => cases h
  | ending done outcome synced => cases synced <;> cases h
  | _ => cases h

/-- What only tells of an attempt leaves it where it stands. -/
theorem next_tells (htells : e.tells = true) (h : stage.next g e = some stage') :
    stage' = stage ∧ stage.claimed = true ∧ stage ≠ .closed := by
  cases e with
  | looked | reread | reported =>
    cases stage with
    | off done signalled => cases signalled <;> cases h <;> exact ⟨rfl, rfl, by simp⟩
    | ending done outcome synced => cases synced <;> cases h <;> exact ⟨rfl, rfl, by simp⟩
    | _ => cases h <;> exact ⟨rfl, rfl, by simp⟩
  | _ => cases htells

end Next

/-! ## What a record says of the attempt behind it -/

def spawns (log : List Event) : List Phase := log.filterMap Event.spawned?

def exits (log : List Event) : List (Phase × Int) := log.filterMap Event.exited?

/-- Each of these has exited with 0. -/
def zeros (phases : List Phase) : List (Phase × Int) := phases.map fun phase => (phase, 0)

/-- These phases were started, those have exited, each with 0, and nothing was asked. -/
structure Ran (started done : List Phase) (log : List Event) : Prop where
  spawned : spawns log = started
  exited : exits log = zeros done
  unasked : ∀ e ∈ log, e.asks = false

section Record
variable {g : Given} {stage stage' : Stage} {log : List Event} {e : Event}
  {started done : List Phase}

theorem spawns_append : spawns (log ++ [e]) = spawns log ++ e.spawned?.toList := by
  rw [spawns, List.filterMap_append, ← spawns]
  cases h : e.spawned? <;> simp [h]

theorem exits_append : exits (log ++ [e]) = exits log ++ e.exited?.toList := by
  rw [exits, List.filterMap_append, ← exits]
  cases h : e.exited? <;> simp [h]

theorem Ran.append (h : Ran started done log) (he : e.asks = false) {started' done' : List Phase}
    (hspawns : started ++ e.spawned?.toList = started')
    (hexits : zeros done ++ e.exited?.toList = zeros done') : Ran started' done' (log ++ [e]) where
  spawned := by rw [spawns_append, h.spawned, hspawns]
  exited := by rw [exits_append, h.exited, hexits]
  unasked := List.forall_mem_append.mpr ⟨h.unasked, List.forall_mem_singleton.mpr he⟩

/-- What neither starts a phase nor ends one, nor asks anything. -/
theorem Ran.idle (h : Ran started done log) (he : e.asks = false) (hspawned : e.spawned? = none)
    (hexited : e.exited? = none) : Ran started done (log ++ [e]) :=
  h.append he (by rw [hspawned]; exact List.append_nil _) (by rw [hexited]; exact List.append_nil _)

variable (g) in
/-- **What the events that led to a stage are.** -/
def Told (log : List Event) : Stage → Prop
  | .unclaimed => Ran [] [] log
  | .ready done => Ran done done log
  | .during done phase => Ran (done ++ [phase]) done log
  | .off done _ => zeros done <+: exits log
  | .ending done outcome synced => zeros done <+: exits log ∧
      (outcome.ran = true → beforeMain g <+: done) ∧
      (outcome.status = .succeeded →
        Ran (plan g) (plan g) log ∧ (synced = true → .synced none ∈ log))
  | .closed => True

theorem Ran.exits_prefix (h : Ran started done log) : zeros done <+: exits (log ++ [e]) := by
  rw [exits_append, h.exited]
  exact List.prefix_append _ _

theorem exits_prefix_append (h : zeros done <+: exits log) : zeros done <+: exits (log ++ [e]) := by
  rw [exits_append]
  exact h.trans (List.prefix_append _ _)

theorem afterSync_succeeded {outcome : Outcome} {problem : Option SyncProblem}
    (h : (afterSync outcome problem).status = .succeeded) :
    problem = none ∧ outcome.status = .succeeded := by
  cases problem with
  | none => exact ⟨rfl, h⟩
  | some problem =>
    rw [afterSync, blame] at h
    split at h
    · cases h
    · next hstatus =>
      split at h
      · exact absurd h hstatus
      · exact absurd h hstatus

/-- What is behind an attempt has all exited with 0. -/
theorem Told.exits_prefix (h : Told g log stage) (hdone : stage.done? = some done) :
    zeros done <+: exits (log ++ [e]) := by
  cases stage with
  | ready | during =>
    cases hdone
    exact Ran.exits_prefix h
  | off =>
    cases hdone
    exact exits_prefix_append h
  | _ => cases hdone

theorem told_step (h : Told g log stage) (hnext : stage.next g e = some stage') :
    Told g (log ++ [e]) stage' := by
  cases e with
  | claimed =>
    obtain ⟨rfl, rfl⟩ := next_claimed hnext
    exact Ran.idle h rfl rfl rfl
  | spawned phase =>
    obtain ⟨done, rfl, rfl, -⟩ := next_spawned hnext
    exact Ran.append h rfl rfl (List.append_nil _)
  | exited phase code =>
    obtain ⟨done, ⟨rfl, rfl, rfl⟩ | ⟨hdone, rfl, -⟩⟩ := next_exited hnext
    · exact Ran.append h rfl (List.append_nil _) (by simp [zeros, Event.exited?])
    · exact h.exits_prefix hdone
  | stops | signalled =>
    obtain ⟨done, hdone, -, signalled, rfl⟩ := next_asks rfl hnext
    exact h.exits_prefix hdone
  | finalizing outcome =>
    obtain ⟨done, rfl, hmay, rfl | ⟨hstatus, signalled, rfl⟩⟩ := next_finalizing hnext
    · refine ⟨h.exits_prefix rfl, hmay.2, fun hsucceeded => ⟨?_, fun hs => Bool.noConfusion hs⟩⟩
      have hdone : done = plan g := (hmay.1 hsucceeded).1
      exact hdone ▸ Ran.idle h rfl rfl rfl
    · exact ⟨h.exits_prefix rfl, hmay.2, fun hsucceeded => absurd hsucceeded hstatus⟩
  | synced problem =>
    obtain ⟨done, outcome, rfl, hran, rfl⟩ := next_synced hnext
    refine ⟨exits_prefix_append h.1, fun _ => h.2.1 hran, fun hsucceeded => ?_⟩
    obtain ⟨rfl, hstatus⟩ := afterSync_succeeded hsucceeded
    refine ⟨Ran.idle (h.2.2 hstatus).1 rfl rfl rfl, fun _ => ?_⟩
    exact List.mem_append_right _ (List.mem_singleton_self _)
  | ended written =>
    obtain ⟨done, outcome, synced, rfl, rfl, -⟩ := next_ended hnext
    trivial
  | looked | reread | reported =>
    obtain ⟨rfl, hclaimed, hclosed⟩ := next_tells rfl hnext
    cases stage' with
    | unclaimed => cases hclaimed
    | ready | during => exact Ran.idle h rfl rfl rfl
    | off => exact exits_prefix_append h
    | ending =>
      refine ⟨exits_prefix_append h.1, h.2.1, fun hsucceeded => ?_⟩
      obtain ⟨hran, hsynced⟩ := h.2.2 hsucceeded
      exact ⟨Ran.idle hran rfl rfl rfl, fun hs => List.mem_append_left _ (hsynced hs)⟩
    | closed => exact absurd rfl hclosed

/-- **The events that led to a stage are as it says.** -/
theorem told_of_course (h : courseOf g log = some stage) : Told g log stage := by
  induction log using List.reverseRecOn generalizing stage with
  | nil =>
    cases h
    exact ⟨rfl, rfl, fun _ h => absurd h List.not_mem_nil⟩
  | append_singleton log e ih =>
    rw [courseOf_concat, Option.bind_eq_some_iff] at h
    obtain ⟨before, hbefore, hnext⟩ := h
    exact told_step (ih hbefore) hnext

/-- Whatever a course has taken, it has taken from some stage, and what is left of it from the next. -/
theorem exists_stage {before after : List Event} (h : (courseOf g (before ++ e :: after)).isSome = true) :
    ∃ stage stage', courseOf g before = some stage ∧ stage.next g e = some stage' ∧
      (after.foldlM (Stage.next g) stage').isSome = true := by
  obtain ⟨last, hlast⟩ := Option.isSome_iff_exists.mp h
  rw [courseOf_append, Option.bind_eq_some_iff] at hlast
  obtain ⟨stage, hstage, hlast⟩ := hlast
  rw [List.foldlM_cons] at hlast
  obtain ⟨stage', hnext, hlast⟩ := Option.bind_eq_some_iff.mp hlast
  exact ⟨stage, stage', hstage, hnext, by rw [hlast]; rfl⟩

/-! Nothing is gone back to, so that what leads from below one mark to it happens once. -/

theorem rank_mono (hnext : stage.next g e = some stage') : stage.rank ≤ stage'.rank := by
  cases e with
  | claimed =>
    obtain ⟨rfl, rfl⟩ := next_claimed hnext
    exact Nat.zero_le _
  | spawned phase =>
    obtain ⟨done, rfl, rfl, -⟩ := next_spawned hnext
    exact Nat.le_refl 1
  | exited phase code =>
    obtain ⟨done, ⟨rfl, rfl, rfl⟩ | ⟨-, rfl, hrank⟩⟩ := next_exited hnext
    · exact Nat.le_refl 1
    · exact hrank.le
  | stops | signalled =>
    obtain ⟨done, -, hrank, -⟩ := next_asks rfl hnext
    exact hrank
  | finalizing outcome =>
    obtain ⟨done, rfl, -, rfl | ⟨-, signalled, rfl⟩⟩ := next_finalizing hnext
    · exact Stage.rank_le_of_done rfl
    · exact Stage.rank_le_of_done rfl
  | synced problem =>
    obtain ⟨done, outcome, rfl, -, rfl⟩ := next_synced hnext
    exact Nat.le_succ 3
  | ended written =>
    obtain ⟨done, outcome, synced, rfl, rfl, -⟩ := next_ended hnext
    cases synced <;> exact Nat.le_of_ble_eq_true rfl
  | looked | reread | reported =>
    obtain ⟨rfl, -⟩ := next_tells rfl hnext
    exact Nat.le_refl _

/-- What takes an attempt past a mark happens once. -/
theorem countP_le_of_mark {kind : Event → Bool} {mark : Nat}
    (hkind : ∀ {stage e stage'}, Stage.next g stage e = some stage' → kind e = true →
      stage.rank < mark ∧ mark ≤ stage'.rank)
    (h : courseOf g log = some stage) : log.countP kind ≤ if mark ≤ stage.rank then 1 else 0 := by
  induction log using List.reverseRecOn generalizing stage with
  | nil => exact Nat.zero_le _
  | append_singleton log e ih =>
    rw [courseOf_concat, Option.bind_eq_some_iff] at h
    obtain ⟨before, hbefore, hnext⟩ := h
    have hcount := ih hbefore
    rw [List.countP_append, List.countP_singleton]
    cases hk : kind e with
    | false =>
      refine Nat.le_trans hcount ?_
      by_cases hpast : mark ≤ before.rank
      · rw [if_pos hpast, if_pos (hpast.trans (rank_mono hnext))]
      · rw [if_neg hpast]
        exact Nat.zero_le _
    | true =>
      obtain ⟨hbelow, hpast⟩ := hkind hnext hk
      rw [if_neg (Nat.not_le.mpr hbelow)] at hcount
      rw [if_pos hpast, if_pos rfl]
      omega

theorem once_of_mark {kind : Event → Bool} (mark : Nat)
    (hkind : ∀ {stage e stage'}, Stage.next g stage e = some stage' → kind e = true →
      stage.rank < mark ∧ mark ≤ stage'.rank)
    (h : (courseOf g log).isSome = true) : log.countP kind ≤ 1 := by
  obtain ⟨stage, hstage⟩ := Option.isSome_iff_exists.mp h
  refine (countP_le_of_mark hkind hstage).trans ?_
  split
  · exact Nat.le_refl 1
  · exact Nat.zero_le 1

/-- In the end, nothing is asked. -/
theorem unasked_of_ending {after : List Event} (hmark : 3 ≤ stage.rank)
    (h : (after.foldlM (Stage.next g) stage).isSome = true) : ∀ e ∈ after, e.asks = false := by
  induction after generalizing stage with
  | nil => exact fun _ hmem => absurd hmem List.not_mem_nil
  | cons e after ih =>
    rw [List.foldlM_cons] at h
    obtain ⟨last, hlast⟩ := Option.isSome_iff_exists.mp h
    obtain ⟨stage', hnext, hlast⟩ := Option.bind_eq_some_iff.mp hlast
    have hrest : (after.foldlM (Stage.next g) stage').isSome = true := by
      rw [hlast]
      rfl
    refine List.forall_mem_cons.mpr ⟨?_, ih (hmark.trans (rank_mono hnext)) hrest⟩
    cases hasks : e.asks with
    | false => rfl
    | true =>
      obtain ⟨done, -, hle, signalled, rfl⟩ := next_asks hasks hnext
      have hmark := hmark.trans hle
      cases signalled <;> exact absurd hmark (by simp [Stage.rank])

variable (g log) in
/-- **What a record says of the attempt behind it**, wherever it stops. -/
structure Disciplined : Prop where
  /-- A phase is started in its turn: those before it in the plan have all exited with 0, and nothing
  was asked of the attempt. -/
  inTurn : ∀ before phase after, log = before ++ .spawned phase :: after →
    ∃ done, done ++ [phase] <+: plan g ∧ Ran done done before
  claimedOnce : log.countP Event.isClaimed ≤ 1
  signalledOnce : log.countP Event.isSignalled ≤ 1
  /-- The end is entered once. -/
  finalizedOnce : log.countP Event.isFinalizing ≤ 1
  /-- No signal and no request gets into the end. -/
  undisturbed : ∀ before outcome after, log = before ++ .finalizing outcome :: after →
    ∀ e ∈ after, e.asks = false
  syncedOnce : log.countP Event.isSynced ≤ 1
  /-- The outputs are uploaded where `main` could be started. -/
  synced : ∀ before problem after, log = before ++ .synced problem :: after →
    zeros (beforeMain g) <+: exits before
  /-- The write that ends an attempt is the last of it. -/
  endedLast : ∀ before written after, log = before ++ .ended written :: after → after = []
  /-- A success is one: every phase of the plan has exited with 0, nothing was asked of the attempt, and
  its outputs are up. -/
  succeeded : ∀ before written after, log = before ++ .ended written :: after →
    written.status = .succeeded → Ran (plan g) (plan g) before ∧ .synced none ∈ before

theorem disciplined_of_course (h : (courseOf g log).isSome = true) : Disciplined g log where
  inTurn before phase after heq := by
    obtain ⟨stage, stage', hstage, hnext, -⟩ := exists_stage (heq ▸ h)
    obtain ⟨done, rfl, -, hplan⟩ := next_spawned hnext
    exact ⟨done, hplan, told_of_course hstage⟩
  claimedOnce := by
    refine once_of_mark 1 (fun {stage e stage'} hnext hkind => ?_) h
    cases e with
    | claimed =>
      obtain ⟨rfl, rfl⟩ := next_claimed hnext
      exact ⟨Nat.zero_lt_one, Nat.le_refl 1⟩
    | _ => cases hkind
  signalledOnce := by
    refine once_of_mark 2 (fun {stage e stage'} hnext hkind => ?_) h
    cases e with
    | signalled =>
      obtain ⟨hrank, done, rfl⟩ := next_signalled hnext
      exact ⟨hrank ▸ Nat.lt_succ_self 1, Nat.le_refl 2⟩
    | _ => cases hkind
  finalizedOnce := by
    refine once_of_mark 3 (fun {stage e stage'} hnext hkind => ?_) h
    cases e with
    | finalizing outcome =>
      obtain ⟨done, rfl, -, rfl | ⟨-, signalled, rfl⟩⟩ := next_finalizing hnext
      · exact ⟨by simp [Stage.rank], Nat.le_refl 3⟩
      · cases signalled <;> exact ⟨by simp [Stage.rank], Nat.le_refl 3⟩
    | _ => cases hkind
  undisturbed before outcome after heq := by
    obtain ⟨stage, stage', -, hnext, hlast⟩ := exists_stage (heq ▸ h)
    obtain ⟨done, rfl, -⟩ := next_finalizing hnext
    have hmark : 3 ≤ (Stage.ending done outcome false).rank := Nat.le_refl 3
    exact unasked_of_ending hmark hlast
  syncedOnce := by
    refine once_of_mark 4 (fun {stage e stage'} hnext hkind => ?_) h
    cases e with
    | synced problem =>
      obtain ⟨done, outcome, rfl, -, rfl⟩ := next_synced hnext
      exact ⟨Nat.lt_succ_self 3, Nat.le_refl 4⟩
    | _ => cases hkind
  synced before problem after heq := by
    obtain ⟨stage, stage', hstage, hnext, -⟩ := exists_stage (heq ▸ h)
    obtain ⟨done, outcome, rfl, hsyncs, -⟩ := next_synced hnext
    obtain ⟨hexits, hran, -⟩ := told_of_course hstage
    exact ((hran hsyncs).map _).trans hexits
  endedLast before written after heq := by
    obtain ⟨stage, stage', -, hnext, hlast⟩ := exists_stage (heq ▸ h)
    obtain ⟨done, outcome, synced, -, rfl, -⟩ := next_ended hnext
    cases after with
    | nil => rfl
    | cons e after =>
      rw [List.foldlM_cons] at hlast
      cases e <;> cases hlast
  succeeded before written after heq hstatus := by
    obtain ⟨stage, stage', hstage, hnext, -⟩ := exists_stage (heq ▸ h)
    obtain ⟨done, outcome, synced, rfl, -, hmay⟩ := next_ended hnext
    obtain ⟨hsucceeded, hsynced⟩ := hmay hstatus
    obtain ⟨hran, hup⟩ := (told_of_course hstage).2.2 hsucceeded
    exact ⟨hran, hup hsynced⟩

end Record

end Gpuc.Host.Attempt
