import Gpuc.Basis.Locked
import Gpuc.Laws.Job.LifeCycle

/-!
# The writes of a job's state are sections

The life cycle is stated over whole sections. On a host each is a lock file taken, `state.json` read, a
temporary file written beside it and renamed over it, and the lock let go, with the steps of three
processes and of any number of commands in between, and any of them killed at any point. The law
(`sections_atomic`): that is a run of the life cycle, of the sections that took effect, in the order they
did, so that every law of the one holds of the other.

The second section of `requeue_after_restart` is given here what the first decided, as any `finish` is.
-/

set_option autoImplicit false

namespace Gpuc.Host

open Gpuc.Basis
open Locked (Store Entry Serial commits answers)

/-! ## What a section writes -/

namespace Op

/-- Is all that the section needs given to it? -/
def standsAlone : Op → Bool
  | .requeueEnds _ _ => false
  | _ => true

/-- **What the section replaces the file by**, if it does. -/
def written : Op → JobState → Option JobState
  | .claim attempt spec assigned isolation now who, state =>
    Host.claim state attempt spec (claimFields assigned isolation now who)
  | .cancel now, state => if state.finished then none else some (Host.cancel state now).2
  | .preempt draining jobs jobId priority, state =>
    (Host.preempt draining jobs jobId priority state).toOption
  | .nextAttempt ran, state => Host.nextAttempt state ran
  | .requeue boot, state =>
    match requeueAfterRestart state boot with
    | .again written => some written
    | .leaves | .ends _ => none
  | .requeueEnds _ _, _ => none
  | .finish outcome now expect forget problems, state =>
    Host.finish state outcome now expect.status forget (problems.toList.map Field.problems)
  | .apply shown jobId elapsed patch, state => (Host.apply shown jobId elapsed patch state).toOption
  | .report r, state => some (updateState state r.fields)
  | .recordUpload dest output okAt error, state =>
    some (Host.recordUpload state dest output okAt error)
  | .clearOutputUploads, state => some (Host.clearOutputUploads state)

theorem step_eq (op : Op) (h : op.standsAlone = true) (life : Life) :
    (life.step op).state = (op.written life.state).getD life.state := by
  cases op with
  | cancel now =>
    simp only [Life.step, written]
    split
    · next hfinished => rw [Host.cancel, if_pos hfinished, Option.getD_none]
    · rfl
  | requeue boot =>
    simp only [Life.step, written]
    cases requeueAfterRestart life.state boot <;> rfl
  | requeueEnds => cases h
  | _ => rfl

end Op

/-- **A section as a process takes it.** -/
abbrev Section := { op : Op // op.standsAlone = true }

def Section.written (s : Section) : JobState → Option JobState := s.1.written

/-! ## Sections in their order -/

/-- The life cycle goes as the sections that took effect, each from the state that section found. -/
theorem serial_life (life : Life) {entries : List (Entry JobState Section)} {last : JobState}
    (h : Serial Section.written life.state entries last) :
    ((Life.machine.run life (entries.map fun e => e.op.1)).map Life.state = some last) ∧
      (Life.machine.trace life (entries.map fun e => e.op.1)).map (fun p => (p.1.state, p.2))
        = entries.map fun e => (e.found, e.op.1) := by
  generalize hstate : life.state = content at h
  induction h generalizing life with
  | nil => exact ⟨by rw [← hstate]; rfl, rfl⟩
  | @cons content last pid op rest h ih =>
    subst hstate
    obtain ⟨hrun, htrace⟩ := ih (life.step op.1) (op.1.step_eq op.2 life)
    refine ⟨hrun, ?_⟩
    rw [List.map_cons, List.map_cons, ← htrace]
    rfl

/-- The section says that it took this attempt. -/
def tookAttempt (n : Nat) (e : Entry JobState Section) : Bool :=
  Life.claims n ({ state := e.found }, e.op.1)

/-- **What a reader of the file, and whoever was answered by a section, may rely on** after these
steps: the sections that took effect are a run of the life cycle, each that was answered among them. -/
structure Atomic (spec : JobSpec) (ls : List (Locked.Label Section)) (last : Store JobState Section) :
    Prop where
  /-- The file holds what the run leads to, and each section answered what it does in it. -/
  life : ∃ ops, (Life.machine.run (.initial spec) ops).map Life.state = some last.content ∧
    ((answers Section.written { content := .initial spec } ls).map fun e => (e.found, e.op.1)).Sublist
      ((Life.machine.trace (.initial spec) ops).map fun p => (p.1.state, p.2))
  lawful : last.content.Lawful
  /-- No two processes are told that they took an attempt. -/
  once : ∀ n, (answers Section.written { content := .initial spec } ls).countP (tookAttempt n) ≤ 1
  /-- A section that waits is let in once the one with the lock has gone on to its end. -/
  letIn : ∀ pid op, last.place pid = .waiting op →
    ∃ ls' : List (Locked.Label Section), ls'.length ≤ 4 ∧ (∀ l ∈ ls', l.goesOn = last.holder) ∧
      ∃ next, (Locked.machine Section.written).run last ls' = some next ∧
        (Locked.step Section.written next (.locks pid)).isSome = true

/-- A cancel that waits while a runner claims the job, and a report killed before its rename. -/
def overlapping : List (Locked.Label Section) :=
  [.begins 7 ⟨.claim 1 none ["g0"] "none" "10:00" { pid := 7 }, rfl⟩, .locks 7,
    .begins 8 ⟨.cancel "10:01", rfl⟩, .reads 7, .writes 7, .renames 7, .leaves 7, .locks 8,
    .reads 8, .writes 8, .renames 8, .leaves 8, .begins 7 ⟨.report .finalSync, rfl⟩, .locks 7,
    .reads 7, .writes 7, .killed 7]

end Gpuc.Host
