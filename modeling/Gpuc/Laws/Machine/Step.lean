import Gpuc.Host.Machine
import Gpuc.Laws.Job.LifeCycle

/-!
# What a step of the host does

Said once, for the laws of whole runs. To the jobs (`Arrives`): a step leaves each job a state that one
section other than a claim makes of its last (`Shifts`), or it is the acceptance of a new job, or it is
a claim, by a runner that had made none. To the runners (`step_runners`): none begins but by a spawn,
and none is back at its start.
-/

set_option autoImplicit false

namespace Gpuc.Host

open Gpuc.Basis

/-! ## Jobs that no claim touches -/

/-- **Every job is where a section other than a claim leaves it**, and none is new or gone. -/
structure Keeps (h h' : Host) : Prop where
  back : ∀ jobId dir', h'.jobs.get? jobId = some dir' →
    ∃ dir, h.jobs.get? jobId = some dir ∧ dir'.spec = dir.spec ∧ Shifts dir.state dir'.state
  keys : ∀ jobId, jobId ∈ h.jobs.keys → jobId ∈ h'.jobs.keys

namespace Keeps
variable {h h' : Host}

theorem of_jobs (hjobs : h'.jobs = h.jobs) : Keeps h h' where
  back _ dir' hget := ⟨dir', hjobs ▸ hget, rfl, .refl _⟩
  keys _ hkey := hjobs ▸ hkey

theorem of_set {jobId : JobId} {dir : JobDir} {state : JobState}
    (hdir : h.jobs.get? jobId = some dir) (hshifts : Shifts dir.state state)
    (hjobs : h'.jobs = h.jobs.set jobId { dir with state := state }) : Keeps h h' where
  back j dir' hget := by
    rw [hjobs, Dict.get?_set] at hget
    split at hget
    · next hj =>
      obtain rfl := Option.some.inj hget
      exact ⟨dir, hj ▸ hdir, rfl, hshifts⟩
    · exact ⟨dir', hget, rfl, .refl _⟩
  keys j hkey := by
    rw [hjobs, Dict.mem_keys_set]
    exact .inr hkey

theorem of_change {jobId : JobId} {f : JobState → Option JobState}
    (hf : ∀ dir written, h.jobs.get? jobId = some dir → f dir.state = some written →
      Shifts dir.state written)
    (hjobs : h'.jobs = (h.change jobId f).jobs) : Keeps h h' := by
  unfold Host.change at hjobs
  split at hjobs
  · exact .of_jobs hjobs
  · next dir hdir =>
    split at hjobs
    · exact .of_jobs hjobs
    · next written hwritten => exact .of_set hdir (hf dir written hdir hwritten) hjobs

end Keeps

/-- Every job of the host is in a state a job can be in. -/
def Host.Lawful (h : Host) : Prop := ∀ jobId dir, h.jobs.get? jobId = some dir → dir.state.Lawful

theorem Keeps.lawful {h h' : Host} (hkeeps : Keeps h h') (hlawful : h.Lawful) : h'.Lawful := by
  intro jobId dir' hget
  obtain ⟨dir, hdir, -, hshifts⟩ := hkeeps.back jobId dir' hget
  exact hshifts.lawful (hlawful jobId dir hdir)

/-! ## The dispatcher -/

/-- **A step that starts no runner**: no claim is made, and the processes are those there were. -/
structure Quiet (h h' : Host) : Prop where
  keeps : Keeps h h'
  runners : h'.runners = h.runners
  boot : h'.boot = h.boot
  nextPid : h'.nextPid = h.nextPid

theorem Quiet.goes {h : Host} {d : Dispatcher} : Quiet h (h.goes d) :=
  ⟨.of_jobs rfl, rfl, rfl, rfl⟩

theorem change_runners (h : Host) (jobId : JobId) (f : JobState → Option JobState) :
    (h.change jobId f).runners = h.runners ∧ (h.change jobId f).boot = h.boot ∧
      (h.change jobId f).nextPid = h.nextPid ∧
      (h.change jobId f).dispatcher = h.dispatcher := by
  unfold Host.change
  split
  · exact ⟨rfl, rfl, rfl, rfl⟩
  · split <;> exact ⟨rfl, rfl, rfl, rfl⟩

theorem Quiet.failIn {h : Host} {d : Dispatcher} {jobId : JobId} {outcome : Outcome}
    {expect : Expect} {forget : Bool} {now : String} {next : Loop} :
    Quiet h (d.failIn h jobId outcome expect forget now next) := by
  obtain ⟨hrunners, hboot, hpid, -⟩ :=
    change_runners h jobId fun state => finish state outcome now expect.status forget
  refine ⟨.of_change (fun dir written _ hwritten => ?_) rfl, hrunners, hboot, hpid⟩
  exact @finish_shifts _ _ _ _ expect _ none hwritten

/-- What a loop still has to act on of `plan`'s decisions. -/
def Loop.pending : Loop → List Act
  | .launching todo => todo
  | _ => []

/-- What a stage still has to act on of `plan`'s decisions. -/
def Stage.pending : Stage → List Act
  | .loop l | .ending _ _ _ _ l => l.pending
  | .spawning jobId gpus attempt todo => .launch jobId gpus attempt :: todo
  | _ => []

/-- From the decision to drain to the terminate call. -/
def Stage.drains : Stage → Bool
  | .marking | .retrying | .mirroring | .terminating => true
  | _ => false

/-- No entry is being settled, no runner spawned, and the host not drained. -/
def Stage.plain : Stage → Bool
  | .settling .. | .spawning .. => false
  | stage => !stage.drains

/-- **The dispatcher's account stands**, and no decision is added to those it acts on. -/
structure Serves (d d' : Dispatcher) : Prop where
  pid : d'.pid = d.pid
  running : d'.running = d.running
  cards : d'.cards = d.cards
  borrowable : d'.borrowable = d.borrowable
  queued : d'.queued.Sublist d.queued
  pending : d'.stage.pending.Sublist d.stage.pending
  plain : d'.stage.plain = true

/-- What `maybe_terminate` asks of a dispatcher and its host before it drains. -/
def Dispatcher.idleEnough (d : Dispatcher) (jobs : Jobs) (now : Seconds) : Prop :=
  d.running.keys = [] ∧ listQueued jobs = [] ∧ d.config.ephemeral = true ∧
    d.terminateRetryAt.any (fun retryAt => now < retryAt) = false ∧
    d.config.idleMinutes * 60 ≤ now - d.queueEmptySince.getD now

instance (d : Dispatcher) (jobs : Jobs) (now : Seconds) : Decidable (d.idleEnough jobs now) :=
  inferInstanceAs (Decidable (_ ∧ _ ∧ _ ∧ _ ∧ _))

/-- **What a step other than a spawn makes of the dispatcher.** -/
inductive Turn (stamp : String → Option Seconds) (h : Host) (d : Dispatcher) (act : DispatcherAct) :
    Dispatcher → Prop where
  | serves {d' : Dispatcher} (hserves : Serves d d') : Turn stamp h d act d'
  | adopts {jobId : JobId} {state : JobState} {stage : Stage}
    (hnew : jobId ∉ d.running.keys ∨ ∃ entry todo, d.stage = .settling jobId entry todo)
    (hpending : stage.pending = []) (hplain : stage.plain = true) :
    Turn stamp h d act { d with running := d.running.set jobId (.adopted state), stage := stage }
  | begins {config : HostConfig} {table : List Gpu} {tableError : Bool} {todo : List JobId} :
    Turn stamp h d act
      { d with
        config := config
        cards := resolve config.gpus table config.sharedGpus
        tableError := tableError
        claimed := none
        borrowable := none
        stage := .loop (.reaping todo) }
  | lists {todo : List JobId} :
    Turn stamp h d act
      { d with queued := listQueued h.jobs, stage := .loop (.dropping todo .launches) }
  | rereads {jobId : JobId} {gpus : List Uuid} {attempt : Nat} {todo : List Act} {now : String}
    (hact : act = .acts now)
    (hstage : d.stage = .loop (.launching (.launch jobId gpus attempt :: todo)))
    (hfree : ∀ c ∈ gpus, c ∉ claimedGpus h.jobs) :
    Turn stamp h d act
      { d with
        claimed := some (claimedGpus h.jobs)
        stage := .spawning jobId gpus attempt todo }
  | drains {now : Seconds} (hact : act = .checks now) (hidle : d.idleEnough h.jobs now) :
    Turn stamp h d act
      { d with queueEmptySince := some (d.queueEmptySince.getD now), stage := .marking }
  | drainsOn {stage : Stage} (hwas : d.stage.drains = true) (hdrains : stage.drains = true) :
    Turn stamp h d act (d.goTo stage)
  | takes {jobId : JobId} {entry : Running} {todo : List JobId}
    (hentry : d.running.get? jobId = some entry)
    (hdead : entry.alive h.boot h.processes = false) :
    Turn stamp h d act
      { d with running := d.running.erase jobId, stage := .settling jobId entry todo }
  | plans {d' : Dispatcher} {inUse : List Uuid} {now : Seconds} (hpid : d'.pid = d.pid)
    (hrunning : d'.running = d.running) (hcards : d'.cards = d.cards)
    (hborrowable : d'.borrowable = d.keptReading stamp h.jobs inUse)
    (hqueued : d'.queued = d.queued)
    (hpending : d'.stage.pending = [] ∨
      d'.stage.pending = d.launchReady stamp h.jobs inUse now)
    (hplain : d'.stage.plain = true) : Turn stamp h d act d'

section
variable {stamp : String → Option Seconds} {h h' : Host} {d : Dispatcher} {act : DispatcherAct}

theorem Serves.goTo {stage : Stage} (hpending : stage.pending.Sublist d.stage.pending)
    (hplain : stage.plain = true) : Serves d (d.goTo stage) :=
  ⟨rfl, rfl, rfl, rfl, .refl _, hpending, hplain⟩

/-- A step that leads nowhere near a launch. -/
theorem Turn.goTo {stage : Stage} (hpending : stage.pending = [])
    (hplain : stage.plain = true) : Turn stamp h d act (d.goTo stage) :=
  .serves (.goTo (hpending ▸ List.nil_sublist _) hplain)

theorem Turn.failIn {jobId : JobId} {outcome : Outcome} {expect : Expect} {forget : Bool}
    {now : String} {next : Loop} (hpending : next.pending.Sublist d.stage.pending)
    {d' : Dispatcher} (hd' : (d.failIn h jobId outcome expect forget now next).dispatcher = some d') :
    Turn stamp h d act d' := by
  obtain rfl := Option.some.inj hd'
  split
  · exact .serves ⟨rfl, rfl, rfl, rfl, List.filter_sublist, hpending, rfl⟩
  · exact .serves (.goTo hpending rfl)

/-- **Of the dispatcher's steps only a spawn makes a runner, and none makes a claim.** -/
theorem Dispatcher.step_cases (hspawn : ∀ starttime, act ≠ .spawns starttime)
    (hstep : d.step stamp h act = some h') :
    Quiet h h' ∧ ∀ d', h'.dispatcher = some d' → Turn stamp h d act d' := by
  have hgoes : ∀ {d' : Dispatcher}, some (h.goes d') = some h' → Turn stamp h d act d' →
      Quiet h h' ∧ ∀ d', h'.dispatcher = some d' → Turn stamp h d act d' := by
    intro d' heq hturn
    obtain rfl := Option.some.inj heq
    exact ⟨.goes, fun d'' hd'' => Option.some.inj hd'' ▸ hturn⟩
  have hfail : ∀ {jobId outcome expect forget now next},
      some (d.failIn h jobId outcome expect forget now next) = some h' →
      next.pending.Sublist d.stage.pending →
      Quiet h h' ∧ ∀ d', h'.dispatcher = some d' → Turn stamp h d act d' := by
    intro jobId outcome expect forget now next heq hpending
    obtain rfl := Option.some.inj heq
    exact ⟨.failIn, fun d' hd' => .failIn hpending hd'⟩
  have hwrite : ∀ {jobId dir written} {d' : Dispatcher},
      some ((h.write jobId dir written).goes d') = some h' → h.jobs.get? jobId = some dir →
      Shifts dir.state written → Turn stamp h d act d' →
      Quiet h h' ∧ ∀ d', h'.dispatcher = some d' → Turn stamp h d act d' := by
    intro jobId dir written d' heq hdir hshifts hturn
    obtain rfl := Option.some.inj heq
    exact ⟨⟨.of_set hdir hshifts rfl, rfl, rfl, rfl⟩, fun d'' hd'' => Option.some.inj hd'' ▸ hturn⟩
  cases act with
  | spawns starttime => exact absurd rfl (hspawn starttime)
  | adopts =>
    change d.adopts h = some h' at hstep
    unfold Dispatcher.adopts at hstep
    split at hstep
    · exact hgoes hstep (.goTo rfl rfl)
    · split at hstep
      · exact hgoes hstep (.goTo rfl rfl)
      · split_ifs at hstep with hskip
        · exact hgoes hstep (.goTo rfl rfl)
        · exact hgoes hstep (.goTo rfl rfl)
        · exact hgoes hstep (.adopts (.inl fun hkey => hskip (.inr hkey)) rfl rfl)
        · exact hgoes hstep (.goTo rfl rfl)
    · cases hstep
  | requeues =>
    change d.requeues h = some h' at hstep
    unfold Dispatcher.requeues at hstep
    split at hstep
    · split at hstep
      · exact hgoes hstep (.goTo rfl rfl)
      · next dir hdir =>
        split at hstep
        · exact hgoes hstep (.goTo rfl rfl)
        · next written hwritten =>
          exact hwrite hstep hdir (requeue_shifts hwritten) (.goTo rfl rfl)
        · exact hgoes hstep (.goTo rfl rfl)
    · cases hstep
  | begins config table =>
    change d.begins h config table = some h' at hstep
    unfold Dispatcher.begins at hstep
    split at hstep
    · exact hgoes hstep .begins
    · cases hstep
  | reaps =>
    change d.reaps h = some h' at hstep
    unfold Dispatcher.reaps at hstep
    split at hstep
    · split at hstep
      · exact hgoes hstep (.goTo rfl rfl)
      · exact hgoes hstep .lists
    · split at hstep
      · exact hgoes hstep (.goTo rfl rfl)
      · next entry hentry =>
        split at hstep
        · exact hgoes hstep (.goTo rfl rfl)
        · next hdead => exact hgoes hstep (.takes hentry (by simpa using hdead))
    · cases hstep
  | settles =>
    change d.settles h = some h' at hstep
    unfold Dispatcher.settles at hstep
    split at hstep
    · next jobId entry todo hstage =>
      split at hstep
      · exact hgoes hstep (.goTo rfl rfl)
      · split_ifs at hstep
        · exact hgoes hstep (.goTo rfl rfl)
        · exact hgoes hstep (.goTo rfl rfl)
        · exact hgoes hstep (.goTo rfl rfl)
        · exact hgoes hstep (.adopts (.inr ⟨entry, todo, hstage⟩) rfl rfl)
        · exact hgoes hstep (.goTo rfl rfl)
    · cases hstep
  | finishes now =>
    change d.finishes h now = some h' at hstep
    unfold Dispatcher.finishes at hstep
    split at hstep
    · next hstage => exact hfail hstep (by rw [hstage]; exact .refl _)
    · cases hstep
  | drops now =>
    change d.drops h now = some h' at hstep
    unfold Dispatcher.drops at hstep
    split at hstep
    · exact hfail hstep (List.nil_sublist _)
    · cases hstep
  | plans inUse now =>
    change d.plans stamp h inUse now = some h' at hstep
    unfold Dispatcher.plans at hstep
    split at hstep
    · exact hgoes hstep (.plans rfl rfl rfl rfl rfl (.inr rfl) rfl)
    · refine hgoes hstep (@Turn.plans stamp h d _ _ inUse now rfl rfl rfl rfl rfl (.inl rfl) rfl)
    · cases hstep
  | acts now =>
    change d.acts stamp h now = some h' at hstep
    unfold Dispatcher.acts at hstep
    split at hstep
    · split at hstep
      · exact hgoes hstep (.goTo rfl rfl)
      · exact hgoes hstep (.goTo rfl rfl)
    · next hstage => exact hfail hstep (by rw [hstage]; exact List.sublist_cons_self _ _)
    · next hstage =>
      split at hstep
      · refine hgoes hstep (.serves ⟨rfl, rfl, rfl, rfl, .refl _, ?_, rfl⟩)
        rw [hstage]
        exact List.sublist_cons_self _ _
      · next hfree =>
        exact hgoes hstep (.rereads rfl hstage fun c hc hclaimed => hfree ⟨c, hc, hclaimed⟩)
    · cases hstep
  | cannotSpawn =>
    change d.cannotSpawn h = some h' at hstep
    unfold Dispatcher.cannotSpawn at hstep
    split at hstep
    · next hstage =>
      refine hgoes hstep (.serves (.goTo ?_ rfl))
      rw [hstage]
      exact List.sublist_cons_self _ _
    · cases hstep
  | preempts =>
    change d.preempts h = some h' at hstep
    unfold Dispatcher.preempts at hstep
    split at hstep
    · exact hgoes hstep (.goTo rfl rfl)
    · split at hstep
      · exact hgoes hstep (.goTo rfl rfl)
      · next dir hdir =>
        split at hstep
        · exact hgoes hstep (.goTo rfl rfl)
        · next written hwritten =>
          exact hwrite hstep hdir (preempt_shifts hwritten) (.goTo rfl rfl)
    · cases hstep
  | checks now =>
    change d.checks h now = some h' at hstep
    unfold Dispatcher.checks at hstep
    split at hstep
    · split at hstep
      · exact hgoes hstep (.goTo rfl rfl)
      · next hready =>
        split at hstep
        · exact hgoes hstep (.serves ⟨rfl, rfl, rfl, rfl, .refl _, List.nil_sublist _, rfl⟩)
        · next hempty =>
          by_cases hlong : d.config.idleMinutes * 60 ≤ now - d.queueEmptySince.getD now
          · rw [not_or, Bool.not_eq_false, Bool.not_eq_true] at hready
            rw [not_or, not_not, not_not] at hempty
            simp only [if_pos hlong] at hstep
            exact hgoes hstep (.drains rfl ⟨hempty.1, hempty.2, hready.1, hready.2, hlong⟩)
          · simp only [if_neg hlong] at hstep
            exact hgoes hstep (.serves ⟨rfl, rfl, rfl, rfl, .refl _, List.nil_sublist _, rfl⟩)
    · cases hstep
  | marks =>
    change d.marks h = some h' at hstep
    unfold Dispatcher.marks at hstep
    split at hstep
    · next hstage =>
      obtain rfl := Option.some.inj hstep
      refine ⟨⟨.of_jobs rfl, rfl, rfl, rfl⟩, fun d' hd' => ?_⟩
      exact Option.some.inj hd' ▸ .drainsOn (by rw [hstage]; rfl) rfl
    · cases hstep
  | retries =>
    change d.retries h = some h' at hstep
    unfold Dispatcher.retries at hstep
    split at hstep
    · next hstage => exact hgoes hstep (.drainsOn (by rw [hstage]; rfl) rfl)
    · cases hstep
  | mirrors =>
    change d.mirrors h = some h' at hstep
    unfold Dispatcher.mirrors at hstep
    split at hstep
    · next hstage => exact hgoes hstep (.drainsOn (by rw [hstage]; rfl) rfl)
    · cases hstep
  | terminates succeeds now =>
    change d.terminates h succeeds now = some h' at hstep
    unfold Dispatcher.terminates at hstep
    split at hstep
    · split at hstep
      · obtain rfl := Option.some.inj hstep
        exact ⟨⟨.of_jobs rfl, rfl, rfl, rfl⟩, fun d' hd' => nomatch hd'⟩
      · obtain rfl := Option.some.inj hstep
        refine ⟨⟨.of_jobs rfl, rfl, rfl, rfl⟩, fun d' hd' => ?_⟩
        obtain rfl := Option.some.inj hd'
        exact .serves ⟨rfl, rfl, rfl, rfl, .refl _, List.nil_sublist _, rfl⟩
    · cases hstep

end

/-! ## The runners -/

/-- **A runner's step is a claim, its first, or leaves the job as another section does.** -/
theorem RunnerProcess.step_cases {r : RunnerProcess} {dir : JobDir} {act : RunnerAct}
    {state : JobState} {stage : Option RunnerStage} (hstep : r.step dir act = some (state, stage)) :
    stage ≠ some .started ∧
      ((∃ isolation now, act = .claims isolation now ∧ r.stage = .started ∧
          claim dir.state r.attempt dir.spec (claimFields r.assigned isolation now r.who)
            = some state) ∨
        Shifts dir.state state) := by
  have hleft : ∀ {s : JobState} {st : Option RunnerStage}, some (s, st) = some (state, stage) →
      st ≠ some .started → Shifts dir.state s →
      stage ≠ some .started ∧
        ((∃ isolation now, act = .claims isolation now ∧ r.stage = .started ∧
            claim dir.state r.attempt dir.spec (claimFields r.assigned isolation now r.who)
              = some state) ∨
          Shifts dir.state state) := by
    intro s st heq hst hs
    cases heq
    exact ⟨hst, .inr hs⟩
  cases act with
  | claims isolation now =>
    simp only [RunnerProcess.step] at hstep
    split at hstep
    · next hstarted =>
      split at hstep
      · next written hwritten =>
        cases hstep
        exact ⟨by simp, .inl ⟨isolation, now, rfl, hstarted, hwritten⟩⟩
      · exact hleft hstep (by simp) (.refl _)
    · cases hstep
  | mainStarts =>
    simp only [RunnerProcess.step] at hstep
    split at hstep
    · exact hleft hstep (by simp) (.stays (updateState_sameLife dir.state .mainStarted))
    · cases hstep
  | requeues =>
    simp only [RunnerProcess.step] at hstep
    split at hstep
    · split at hstep
      · next written hwritten => exact hleft hstep (by simp) (nextAttempt_shifts hwritten)
      · exact hleft hstep (by simp) (.refl _)
    · exact hleft hstep (by simp) (.refl _)
    · cases hstep
  | finishes now =>
    simp only [RunnerProcess.step] at hstep
    split at hstep
    · next outcome problems _ =>
      split at hstep
      · next written hwritten =>
        exact hleft hstep (by simp) (@finish_shifts _ _ _ _ .running _ (some problems) hwritten)
      · exact hleft hstep (by simp) (.refl _)
    · cases hstep
  | polls | timesOut | phaseEnds _ _ | cannotRun _ | terminated | settles _ | overrules =>
    simp only [RunnerProcess.step] at hstep
    split at hstep
    · exact hleft hstep (by simp) (.refl _)
    · cases hstep

/-- A runner's step, on the host: it changes its job and itself, and nothing else. -/
theorem runnerStep_eq_some {h h' : Host} {pid : Nat} {act : RunnerAct}
    (hstep : h.runnerStep pid act = some h') :
    ∃ r ∈ h.runners, r.who.pid = pid ∧ ∃ dir state stage, h.jobs.get? r.jobId = some dir ∧
      r.step dir act = some (state, stage) ∧
      h' = { h.write r.jobId dir state with
        runners := (h.runners.filter fun r => r.who.pid ≠ pid)
          ++ (stage.map fun stage => { r with stage := stage }).toList } := by
  unfold Host.runnerStep at hstep
  cases hfind : h.runners.find? fun r => r.who.pid = pid with
  | none => simp [hfind] at hstep
  | some r =>
    cases hdir : h.jobs.get? r.jobId with
    | none => simp [hfind, hdir] at hstep
    | some dir =>
      cases hact : r.step dir act with
      | none => simp [hfind, hdir, hact] at hstep
      | some result =>
        obtain ⟨state, stage⟩ := result
        refine ⟨r, List.mem_of_find?_eq_some hfind, by simpa using List.find?_some hfind, dir, state,
          stage, hdir, hact, ?_⟩
        simp only [hfind, hdir, hact, Option.bind_eq_bind, Option.bind_some, Option.pure_def,
          Option.some.injEq] at hstep
        subst hstep
        cases stage <;> simp

/-! ## One step -/

/-- A command makes no claim. -/
theorem runCommand_shifts {h : Host} {jobId : JobId} {c : Command} {state written : JobState}
    (hlawful : state.Lawful) (hrun : h.runCommand jobId c state = some written) :
    Shifts state written := by
  cases c with
  | cancel now =>
    obtain rfl := Option.some.inj hrun
    exact cancel_shifts hlawful.known now
  | preempt priority => exact preempt_shifts (eq_ok_of_toOption hrun)
  | apply shown elapsed patch => exact .stays (apply_sameLife (eq_ok_of_toOption hrun))
  | report r =>
    obtain rfl := Option.some.inj hrun
    exact .stays (updateState_sameLife state r)
  | recordUpload dest output okAt error =>
    obtain rfl := Option.some.inj hrun
    exact .stays ⟨rfl, rfl, rfl, rfl, rfl, rfl, rfl, rfl⟩
  | clearOutputUploads =>
    obtain rfl := Option.some.inj hrun
    exact .stays ⟨rfl, rfl, rfl, rfl, rfl, rfl, rfl, rfl⟩

/-- The label is a claim that a runner of the host can make, of its job as the host has it: what it
writes. -/
structure Claims (h : Host) (label : Label) (r : RunnerProcess) (dir : JobDir)
    (written : JobState) : Prop where
  isRunner : r ∈ h.runners
  isStarted : r.stage = .started
  hasDir : h.jobs.get? r.jobId = some dir
  isClaim : ∃ isolation now, label = .runner r.who.pid (.claims isolation now) ∧
    claim dir.state r.attempt dir.spec (claimFields r.assigned isolation now r.who) = some written

/-- **How a job came to be as a step leaves it.** -/
inductive Arrives (h : Host) (label : Label) (jobId : JobId) : JobDir → Prop where
  | kept (dir dir' : JobDir) (hdir : h.jobs.get? jobId = some dir) (hspec : dir'.spec = dir.spec)
    (hshifts : Shifts dir.state dir'.state) : Arrives h label jobId dir'
  | accepted (spec : JobSpec) (hlabel : label = .enqueue spec) (hid : spec.jobId = jobId)
    (hnew : jobId ∉ h.jobs.keys) : Arrives h label jobId ⟨some spec, .initial spec⟩
  | claimed (r : RunnerProcess) (dir : JobDir) (written : JobState)
    (hclaim : Claims h label r dir written) (hid : r.jobId = jobId) :
    Arrives h label jobId { dir with state := written }

section
variable {stamp : String → Option Seconds} {h h' : Host} {label : Label}

/-- Every label but an acceptance, a claim that succeeds and a spawn is quiet about the jobs. -/
theorem step_keeps (hlawful : h.Lawful) (hstep : h.step stamp label = some h') :
    Keeps h h' ∨ (∃ spec, label = .enqueue spec ∧ spec.jobId ∉ h.jobs.keys ∧
        h' = { h with jobs := h.jobs.set spec.jobId ⟨some spec, .initial spec⟩ }) ∨
      ∃ r dir written, Claims h label r dir written ∧
        h' = { h.write r.jobId dir written with
          runners := (h.runners.filter fun r' => r'.who.pid ≠ r.who.pid)
            ++ [{ r with stage := .running none false }] } := by
  cases label with
  | enqueue spec =>
    simp only [Host.step] at hstep
    split at hstep
    · cases hstep
    · next hnew =>
      obtain rfl := Option.some.inj hstep
      exact .inr (.inl ⟨spec, rfl, hnew, rfl⟩)
  | command jobId c =>
    obtain rfl := Option.some.inj hstep
    exact .inl (.of_change (fun dir written hdir hwritten =>
      runCommand_shifts (hlawful jobId dir hdir) hwritten) rfl)
  | runner pid act =>
    obtain ⟨r, hr, rfl, dir, state, stage, hdir, hact, rfl⟩ := runnerStep_eq_some hstep
    obtain ⟨hstage, ⟨isolation, now, rfl, hstarted, hclaim⟩ | hshifts⟩ :=
      RunnerProcess.step_cases hact
    · refine .inr (.inr ⟨r, dir, state, ⟨hr, hstarted, hdir, isolation, now, rfl, hclaim⟩, ?_⟩)
      have hnext : stage = some (.running none false) := by
        simp only [RunnerProcess.step, hstarted, hclaim, Option.some.injEq, Prod.mk.injEq] at hact
        exact hact.2.symm
      rw [hnext]
      rfl
    · exact .inl (.of_set hdir hshifts rfl)
  | exits pid =>
    obtain rfl := Option.some.inj hstep
    exact .inl (.of_jobs rfl)
  | starts =>
    simp only [Host.step] at hstep
    split at hstep
    · cases hstep
    · obtain rfl := Option.some.inj hstep
      exact .inl (.of_jobs rfl)
  | killed =>
    obtain rfl := Option.some.inj hstep
    exact .inl (.of_jobs rfl)
  | dispatcher act =>
    obtain ⟨d, -, hact⟩ := Option.bind_eq_some_iff.mp hstep
    by_cases hspawn : ∃ starttime, act = .spawns starttime
    · obtain ⟨starttime, rfl⟩ := hspawn
      change d.spawns h starttime = some h' at hact
      unfold Dispatcher.spawns at hact
      split at hact
      · obtain rfl := Option.some.inj hact
        exact .inl (.of_jobs rfl)
      · cases hact
    · exact .inl (Dispatcher.step_cases (fun starttime heq => hspawn ⟨starttime, heq⟩) hact).1.keeps
  | reboots boot =>
    obtain rfl := Option.some.inj hstep
    exact .inl (.of_jobs rfl)

/-- **How every job comes to be as a step leaves it.** -/
theorem step_arrives (hlawful : h.Lawful) (hstep : h.step stamp label = some h') {jobId : JobId}
    {dir' : JobDir} (hget : h'.jobs.get? jobId = some dir') : Arrives h label jobId dir' := by
  rcases step_keeps hlawful hstep with hkeeps | ⟨spec, rfl, hnew, rfl⟩ | ⟨r, dir, written, hclaim, rfl⟩
  · obtain ⟨dir, hdir, hspec, hshifts⟩ := hkeeps.back jobId dir' hget
    exact .kept dir dir' hdir hspec hshifts
  · simp only [Dict.get?_set] at hget
    split at hget
    · next hid =>
      obtain rfl := Option.some.inj hget
      subst hid
      exact .accepted spec rfl rfl hnew
    · exact .kept dir' dir' hget rfl (.refl _)
  · simp only [Host.write, Dict.get?_set] at hget
    split at hget
    · next hid =>
      obtain rfl := Option.some.inj hget
      subst hid
      exact .claimed r dir written hclaim rfl
    · exact .kept dir' dir' hget rfl (.refl _)

/-- No job goes. -/
theorem step_keys (hlawful : h.Lawful) (hstep : h.step stamp label = some h') {jobId : JobId}
    (hkey : jobId ∈ h.jobs.keys) : jobId ∈ h'.jobs.keys := by
  rcases step_keeps hlawful hstep with hkeeps | ⟨spec, rfl, hnew, rfl⟩ | ⟨r, dir, written, hclaim, rfl⟩
  · exact hkeeps.keys jobId hkey
  · exact Dict.mem_keys_set.mpr (.inr hkey)
  · exact Dict.mem_keys_set.mpr (.inr hkey)

/-- What a claim does to the job. -/
theorem Claims.state {r : RunnerProcess} {dir : JobDir} {written : JobState}
    (hclaim : Claims h label r dir written) :
    dir.state.status = .queued ∧ dir.state.attempt = r.attempt ∧ written.status = .running ∧
      written.intent = dir.state.intent ∧ written.attempt = dir.state.attempt ∧
      written.restarts = dir.state.restarts ∧ written.gpus = r.assigned ∧
      written.runnerPid = some r.who.pid := by
  obtain ⟨isolation, now, -, hwritten⟩ := hclaim.isClaim
  exact claim_eq_some hwritten

/-- A job the host has makes the moves of a job. -/
theorem Arrives.moves {jobId : JobId} {dir dir' : JobDir} (harrives : Arrives h label jobId dir')
    (hdir : h.jobs.get? jobId = some dir) : Moves dir.state dir'.state := by
  cases harrives with
  | kept was _ hwas _ hshifts =>
    obtain rfl := Option.some.inj (hwas.symm.trans hdir)
    exact .shifts hshifts
  | accepted spec _ _ hnew => exact absurd (Dict.mem_keys.mpr ⟨dir, hdir⟩) hnew
  | claimed r was written hclaim hid =>
    obtain rfl := Option.some.inj ((hid ▸ hclaim.hasDir).symm.trans hdir)
    obtain ⟨hqueued, -, hrunning, hintent, hattempt, hrestarts, -⟩ := hclaim.state
    exact .starts hqueued hrunning hintent hattempt hrestarts

theorem step_lawful (hlawful : h.Lawful) (hstep : h.step stamp label = some h') : h'.Lawful := by
  intro jobId dir' hget
  cases step_arrives hlawful hstep hget with
  | kept dir _ hdir _ hshifts => exact hshifts.lawful (hlawful jobId dir hdir)
  | accepted spec => exact Life.initial_lawful spec
  | claimed r dir written hclaim hid =>
    obtain ⟨hqueued, -, hrunning, hintent, hattempt, hrestarts, -⟩ := hclaim.state
    exact (Moves.starts hqueued hrunning hintent hattempt hrestarts).lawful
      (hlawful r.jobId dir hclaim.hasDir)

/-- **The runners of a host after a step** are those it had, each as it was or further on, and the one
that the step spawned. -/
theorem step_runners (hstep : h.step stamp label = some h') {r' : RunnerProcess}
    (hr' : r' ∈ h'.runners) :
    (∃ r ∈ h.runners, ∃ stage, r' = { r with stage := stage } ∧
      (stage = .started → r.stage = .started)) ∨
    ∃ d starttime todo, h.dispatcher = some d ∧ label = .dispatcher (.spawns starttime) ∧
      d.stage = .spawning r'.jobId r'.assigned r'.attempt todo ∧ r'.parent = d.pid ∧
      r'.who.pid = h.nextPid := by
  have hsame : r' ∈ h.runners → ∃ r ∈ h.runners, ∃ stage, r' = { r with stage := stage } ∧
      (stage = .started → r.stage = .started) := fun hr => ⟨r', hr, r'.stage, rfl, id⟩
  cases label with
  | enqueue spec =>
    simp only [Host.step] at hstep
    split at hstep
    · cases hstep
    · obtain rfl := Option.some.inj hstep
      exact .inl (hsame hr')
  | command jobId c =>
    obtain rfl := Option.some.inj hstep
    rw [(change_runners h jobId (h.runCommand jobId c)).1] at hr'
    exact .inl (hsame hr')
  | runner pid act =>
    obtain ⟨r, hr, rfl, dir, state, stage, hdir, hact, rfl⟩ := runnerStep_eq_some hstep
    rcases List.mem_append.mp hr' with hother | hself
    · exact .inl (hsame (List.mem_filter.mp hother).1)
    · cases stage with
      | none => exact absurd hself List.not_mem_nil
      | some stage =>
        obtain rfl := List.mem_singleton.mp hself
        refine .inl ⟨r, hr, stage, rfl, fun hstarted => ?_⟩
        exact absurd (congrArg some hstarted) (RunnerProcess.step_cases hact).1
  | exits pid =>
    obtain rfl := Option.some.inj hstep
    exact .inl (hsame (List.mem_filter.mp hr').1)
  | starts =>
    simp only [Host.step] at hstep
    split at hstep
    · cases hstep
    · obtain rfl := Option.some.inj hstep
      exact .inl (hsame hr')
  | killed =>
    obtain rfl := Option.some.inj hstep
    exact .inl (hsame hr')
  | dispatcher act =>
    obtain ⟨d, hd, hact⟩ := Option.bind_eq_some_iff.mp hstep
    by_cases hspawn : ∃ starttime, act = .spawns starttime
    · obtain ⟨starttime, rfl⟩ := hspawn
      change d.spawns h starttime = some h' at hact
      unfold Dispatcher.spawns at hact
      split at hact
      · next jobId gpus attempt todo hstage =>
        obtain rfl := Option.some.inj hact
        rcases List.mem_append.mp hr' with hold | hnew
        · exact .inl (hsame hold)
        · obtain rfl := List.mem_singleton.mp hnew
          exact .inr ⟨d, starttime, todo, hd, rfl, hstage, rfl, rfl⟩
      · cases hact
    · have hquiet := (Dispatcher.step_cases (fun starttime heq => hspawn ⟨starttime, heq⟩) hact).1
      rw [hquiet.runners] at hr'
      exact .inl (hsame hr')
  | reboots boot =>
    obtain rfl := Option.some.inj hstep
    exact absurd hr' List.not_mem_nil

end

theorem fresh_lawful (boot : Boot) : (Host.fresh boot).Lawful :=
  fun _ _ hget => nomatch hget

end Gpuc.Host
