import Gpuc.Basis.Run
import Gpuc.Host.Jobs

/-!
# A job's checkout, from the submit to its last attempt

`Checkout`: one job's directories on one host, and who changes them. A submit builds a directory under
`incoming/`, has the host archive what is in it where workdirs are on scratch, and has it accepted, by a
rename. Attempts find the workdir or unpack the archive. Each step is one call that changes a file or one
entry of a tree, and between any two of them the client or the command it waits for dies, the sweep of what
submits left goes on, the host restarts and what was on scratch is gone, or somebody sets its scratch to
somewhere else.

A tree is the list of its entries, whatever these are. The job is not over in any state here: what
`cleanup:` does to a workdir then is not part of it.
-/

set_option autoImplicit false

namespace Gpuc.Host.Checkout

open Gpuc.Basis

/-- `INCOMING_STALE_S`. -/
def incomingStaleS : Seconds := 3600

/-- A job's directory under `incoming/`. -/
structure Staged (E : Type) where
  workdir : Option (List E) := none
  /-- `checkout.tar.gz`, and what of it is written beside it so far. -/
  archive : Option (List E) := none
  partialArchive : Option (List E) := none
  spec : Bool := false
  state : Bool := false

/-- Its directory under `jobs/`, all but the workdir. -/
structure Accepted (E : Type) where
  archive : Option (List E)
  spec : Bool
  state : Bool

/-- A workdir, and whether an attempt's commands have been in it. -/
structure Tree (E : Type) where
  entries : List E
  worked : Bool

/-- Where a workdir may be: in the job's directory, or on this scratch. -/
inductive Root where
  | jobDir
  | scratch (directory : String)
  deriving DecidableEq

/-- **Where `archive_staged` stands**: what it has packed, and when it removes the workdir. -/
inductive Archiving where
  | looks
  | packs (packed : Nat)
  | removes
  deriving DecidableEq

/-- **Where `enqueue` stands** on the host. -/
inductive Accepting where
  | reads
  | makes
  | writes
  | archives (place : Archiving)
  | renames
  deriving DecidableEq

/-- **Where a submit stands.** -/
inductive Submit where
  | notYet
  /-- `rsync` has put so many entries there. -/
  | syncing (synced : Nat)
  | synced
  | described
  /-- `archive-checkout` runs on the host. -/
  | archiving (place : Archiving)
  | archived
  | delivered
  | specified
  /-- `enqueue` runs on the host. -/
  | accepting (place : Accepting)
  | accepted
  /-- The client died or was told of an error, or what it had started was killed. -/
  | dropped
  deriving DecidableEq

/-- What a client knows: whether it has checkouts archived, the scratch it gives its commands, and whether
there are secrets. -/
structure Client where
  asks : Bool
  scratch : Bool
  secrets : Bool

/-- **Where `restore` stands**, for this place of the workdir. -/
inductive Restore where
  | looks
  | removes (root : Root)
  | unpacks (root : Root) (unpacked : Nat)
  deriving DecidableEq

/-- The attempt there is, if any, with the scratch its process was started with. -/
inductive Attempt where
  | none
  | restores (scratch : Option String) (place : Restore)
  | restored (root : Root)
  | works (root : Root)
  /-- `checkout-lost`. -/
  | lost
  deriving DecidableEq

structure State (E : Type) where
  now : Seconds := 0
  submit : Submit := .notYet
  client : Client := ⟨false, false, false⟩
  /-- Nobody waits for the command that runs. -/
  orphaned : Bool := false
  incoming : Option (Staged E) := none
  /-- When something was last put into it. What `rsync` puts there has the times it had before. -/
  changed : Seconds := 0
  secrets : Bool := false
  /-- The sweep has found it stale. -/
  sweeping : Bool := false
  job : Option (Accepted E) := none
  /-- `GPUC_SCRATCH_DIR`, by the host's config. -/
  scratch : Option String := none
  trees : Root → Option (Tree E) := fun _ => none
  /-- `partial_workdir`. -/
  unpacking : Root → Option (List E) := fun _ => none
  attempt : Attempt := .none

variable {E : Type}

namespace State

/-- A workdir there. -/
def setTree (s : State E) (root : Root) (tree : Option (Tree E)) : State E :=
  { s with trees := fun r => if r = root then tree else s.trees r }

def setUnpacking (s : State E) (root : Root) (entries : Option (List E)) : State E :=
  { s with unpacking := fun r => if r = root then entries else s.unpacking r }

/-- Something is put into the directory under `incoming/`, which is made where it is not there. -/
def stage (s : State E) (f : Staged E → Staged E) : State E :=
  { s with incoming := some (f (s.incoming.getD {})), changed := s.now }

/-- The submit is there now. -/
def goes (s : State E) (submit : Submit) : State E := { s with submit }

/-- `workdir`, for a process of this scratch. -/
def workdirRoot (s : State E) (scratch : Option String) : Root :=
  match scratch with
  | none => .jobDir
  | some directory => if (s.trees .jobDir).isSome then .jobDir else .scratch directory

end State

/-! ## The submit -/

/-- **`archive_staged`**, one step: where it stands after that, or nowhere if it is done. An archive that is
written goes where it was opened, be that still there or not. -/
def archiveStaged (staged : Staged E) : Archiving → Option (Staged E × Option Archiving)
  | .looks =>
    if staged.archive.isSome then some (staged, some .removes)
    else some ({ staged with partialArchive := some [] }, some (.packs 0))
  | .packs packed =>
    match staged.workdir, staged.partialArchive with
    | some entries, some written =>
      match entries[packed]? with
      | some entry =>
        some ({ staged with partialArchive := some (written ++ [entry]) }, some (.packs (packed + 1)))
      | none => some ({ staged with archive := some written, partialArchive := none }, some .removes)
    | _, _ => none
  | .removes =>
    match staged.workdir with
    | some (_ :: rest) => some ({ staged with workdir := some rest }, some .removes)
    | some [] | none => some ({ staged with workdir := none }, none)

namespace State

/-- The directory is archived, one step; the submit is at `during` while it is, and after it at `after`. -/
def archives (s : State E) (place : Archiving) (during : Archiving → Submit) (after : Submit) : State E :=
  match s.incoming.bind fun staged => archiveStaged staged place with
  | none => s.goes .dropped
  | some (staged, next) => (s.stage fun _ => staged).goes (next.elim after during)

/-- **`enqueue`**, one step. -/
def accepts (s : State E) : Accepting → State E
  | .reads => if s.incoming.any Staged.spec then s.goes (.accepting .makes) else s.goes .dropped
  | .makes =>
    if s.job.isSome then s.goes .dropped
    else
      (s.stage fun staged =>
        if staged.archive.isSome then staged else { staged with workdir := some (staged.workdir.getD []) }).goes
        (.accepting .writes)
  | .writes =>
    (s.stage fun staged => { staged with spec := true, state := true }).goes
      (.accepting (if s.client.scratch then .archives .looks else .renames))
  | .archives place => s.archives place (fun place => .accepting (.archives place)) (.accepting .renames)
  | .renames =>
    match s.incoming, s.job with
    | some staged, none =>
      { s with
        job := some { archive := staged.archive, spec := staged.spec, state := staged.state }
        incoming := none
        trees := fun r => if r = .jobDir then staged.workdir.map (⟨·, false⟩) else s.trees r
        submit := .accepted }
    | _, _ => s.goes .dropped

/-- Where a command is done the client goes on, if there is one. -/
def afterCommand (s : State E) (submit : Submit) : Submit := if s.orphaned then .dropped else submit

/-- **The next step of the submit**, the client's or the command's: `push_workdir`, then `submit_spec`. -/
def submits (code : List E) (s : State E) : Option (State E) :=
  match s.submit with
  | .notYet | .accepted | .dropped => none
  | .syncing synced =>
    match s.incoming.bind Staged.workdir with
    | none => some (s.goes .dropped)
    | some entries =>
      match code[synced]? with
      | some entry =>
        some { s with
          incoming := s.incoming.map fun staged => { staged with workdir := some (entries ++ [entry]) }
          submit := .syncing (synced + 1) }
      | none => some (s.goes .synced)
  | .synced => some ((s.stage id).goes .described)
  | .described => some (s.goes (if s.client.asks then .archiving .looks else .archived))
  | .archiving place => some (s.archives place .archiving (s.afterCommand .archived))
  | .archived => some { s with secrets := s.secrets || s.client.secrets, submit := .delivered }
  | .delivered => some ((s.stage fun staged => { staged with spec := true }).goes .specified)
  | .specified => some (s.goes (.accepting .reads))
  | .accepting place => some (s.accepts place)

/-! ## The attempts -/

/-- **`restore`**, one step. A tree unpacked before that is still there is removed first. -/
def restores (s : State E) (scratch : Option String) : Restore → State E
  | .looks =>
    let root := s.workdirRoot scratch
    if (s.trees root).isSome then { s with attempt := .restored root }
    else
      match s.job.bind Accepted.archive with
      | none => { s with attempt := if scratch.isSome then .lost else .restored root }
      | some _ => { s with attempt := .restores scratch (.removes root) }
  | .removes root =>
    match s.unpacking root with
    | some (_ :: rest) => s.setUnpacking root (some rest)
    | some [] | none => { s.setUnpacking root (some []) with attempt := .restores scratch (.unpacks root 0) }
  | .unpacks root unpacked =>
    match s.job.bind Accepted.archive, s.unpacking root with
    | some archived, some entries =>
      match archived[unpacked]? with
      | some entry =>
        { s.setUnpacking root (some (entries ++ [entry])) with
          attempt := .restores scratch (.unpacks root (unpacked + 1)) }
      | none =>
        if (s.trees root).isSome then { s with attempt := .lost }
        else
          { (s.setUnpacking root none).setTree root (some ⟨entries, false⟩) with attempt := .restored root }
    | _, _ => { s with attempt := .lost }

end State

/-- What the sweep takes away next. -/
inductive Removal where
  | entry (index : Nat)
  | workdir
  | archive
  | partialArchive
  | spec
  | state
  deriving DecidableEq

def Removal.apply : Removal → Staged E → Staged E
  | .entry index, staged => { staged with workdir := staged.workdir.map fun entries => entries.eraseIdx index }
  | .workdir, staged => { staged with workdir := none }
  | .archive, staged => { staged with archive := none }
  | .partialArchive, staged => { staged with partialArchive := none }
  | .spec, staged => { staged with spec := false }
  | .state, staged => { staged with state := false }

inductive Label (E : Type) where
  | begins (client : Client)
  | submits
  /-- `rmtree` meets an error while a workdir that was archived is removed, and leaves the rest. -/
  | leaves
  | clientDies
  | commandKilled
  | passes (seconds : Seconds)
  | findsStale
  | sweeps (removal : Removal)
  /-- All is gone, and the secrets with it. -/
  | swept
  | sets (scratch : Option String)
  | attempts
  | restores
  /-- A call of `restore` raises. -/
  | fails
  | killed
  /-- The first of the job's commands is started, and what commands make of the tree. -/
  | starts
  | works (entries : List E)
  | ends
  | restarts (wiped : String → Bool)

/-- A command runs on the host. -/
def Submit.isCommand : Submit → Bool
  | .archiving _ | .accepting _ => true
  | _ => false

/-- **The submit is under way.** -/
def Submit.isUnderWay : Submit → Bool
  | .notYet | .accepted | .dropped => false
  | _ => true

/-- A workdir that was archived is being removed. -/
def Submit.removes : Submit → Option Submit
  | .archiving .removes => some .archived
  | .accepting (.archives .removes) => some (.accepting .renames)
  | _ => none

/-- It is on a scratch that is wiped. -/
def Root.isWiped (wiped : String → Bool) : Root → Bool
  | .jobDir => false
  | .scratch directory => wiped directory

/-- What was on a scratch that is wiped is gone, and so is every process. -/
def State.restarted (s : State E) (wiped : String → Bool) : State E :=
  { s with
    attempt := .none
    submit := if s.submit.isCommand then .dropped else s.submit
    sweeping := false
    trees := fun root => if root.isWiped wiped then none else s.trees root
    unpacking := fun root => if root.isWiped wiped then none else s.unpacking root }

def step (code : List E) (s : State E) : Label E → Option (State E)
  | .begins client =>
    if s.submit = .notYet then
      some (({ s with client }.stage fun staged => { staged with workdir := some [] }).goes (.syncing 0))
    else none
  | .submits => s.submits code
  | .leaves => s.submit.removes.map fun after =>
    s.goes (if s.submit = .archiving .removes then s.afterCommand after else after)
  | .clientDies =>
    if ¬s.submit.isUnderWay then none
    else if s.submit.isCommand then some { s with orphaned := true }
    else some (s.goes .dropped)
  | .commandKilled => if s.submit.isCommand then some (s.goes .dropped) else none
  | .passes seconds => if 0 ≤ seconds then some { s with now := s.now + seconds } else none
  | .findsStale =>
    if s.incoming.isSome ∧ s.now - s.changed > incomingStaleS then some { s with sweeping := true } else none
  | .sweeps removal =>
    if s.sweeping then some { s with incoming := s.incoming.map removal.apply } else none
  | .swept =>
    if s.sweeping then
      some { s with
        incoming := none, secrets := if s.incoming.isSome then false else s.secrets, sweeping := false }
    else none
  | .sets scratch => some { s with scratch }
  | .attempts =>
    if s.job.isSome ∧ s.attempt = .none then some { s with attempt := .restores s.scratch .looks } else none
  | .restores =>
    match s.attempt with
    | .restores scratch place => some (s.restores scratch place)
    | _ => none
  | .fails =>
    match s.attempt with
    | .restores scratch _ =>
      some { (if scratch.isSome then s.setUnpacking (s.workdirRoot scratch) none else s) with
        attempt := .lost }
    | _ => none
  | .killed => some { s with attempt := .none }
  | .starts =>
    match s.attempt with
    | .restored root =>
      some { s.setTree root (some ⟨((s.trees root).map Tree.entries).getD [], true⟩) with
        attempt := .works root }
    | _ => none
  | .works entries =>
    match s.attempt with
    | .works root => some (s.setTree root (some ⟨entries, true⟩))
    | _ => none
  | .ends =>
    match s.attempt with
    | .restored _ | .works _ | .lost => some { s with attempt := .none }
    | .none | .restores _ _ => none
  | .restarts wiped => some (s.restarted wiped)

/-- **One job's checkout on one host.** -/
def machine (code : List E) : Machine (State E) (Label E) where
  step := step code

end Gpuc.Host.Checkout
