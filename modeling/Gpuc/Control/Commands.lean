import Mathlib.Data.String.Basic
import Gpuc.Basis.Dict
import Gpuc.Basis.Shell

/-!
# The command lines the control side sends to a host

Each is text that two shells read before the host's own program sees its arguments: the login shell that
`sshd` starts, whichever it is, and the `bash` that is started by that. `Request` is what the host is
asked for, and its `line` the text the control side makes of it.
-/

set_option autoImplicit false

namespace Gpuc.Control.Commands

open Gpuc.Basis Gpuc.Basis.Shell

/-- Text of characters that need no quotes: a number as it is printed, an id as it is made. -/
structure Token where
  text : Text
  nonempty : text ≠ []
  plain : ∀ c ∈ text, isPlain c = true

/-- `' '.join(shlex.quote(id) for id in ids)`. -/
def quoted (ids : List Text) : Text := spaced (ids.map quote)

/-- One option with its value, behind what is there already. -/
def option (flag : String) (value : Text) : Text := ' ' :: (flag.toList ++ ' ' :: quote value)

/-- The line of a verb on some jobs, in `job_verbs`. -/
def jobVerb (verb : String) (ids : List Text) (args : Text) : Text :=
  verb.toList ++ ' ' :: (quoted ids ++ args)

/-- A flag that is given or not. -/
def flag (name : String) (given : Bool) : List Text := if given then [name.toList] else []

/-- `--only`, whose value is one word for any number of jobs. -/
def only (ids : Option (List Text)) : List Text :=
  ids.elim [] fun ids => ["--only".toList, quote (List.intercalate [','] ids)]

/-! ## What a host is asked for -/

/-- `enqueue`, in `enqueue_spec`. -/
def enqueueLine (staged : Text) : Text := "enqueue".toList ++ ' ' :: quote staged

/-- `archive-checkout`, in `submit_spec`: the job's id is put in as it is. -/
def archiveLine (jobId : Token) : Text := "archive-checkout".toList ++ ' ' :: jobId.text

/-- An option that is given with a value that needs no quotes, or not. -/
def given (name : String) (value : Option Token) : List Text :=
  value.elim [] fun value => [name.toList, value.text]

/-- `status_request`. -/
def statusRequest (jobIds : List Text) (recent since : Option Token) : Text :=
  spaced ("status".toList :: (jobIds.map quote ++ given "--recent" recent ++ given "--since" since))

def cancelLine (ids : List Text) : Text := jobVerb "cancel" ids []

def preemptLine (ids : List Text) (priority : Option Token) : Text :=
  jobVerb "preempt" ids (priority.elim [] fun priority => ' ' :: ("--priority".toList ++ ' ' :: priority.text))

/-- `set`, in `set_jobs`: of each field its name and its value's JSON. -/
def setLine (ids : List Text) (patch : List (Text × Text)) : Text :=
  jobVerb "set" ids (patch.flatMap fun field => option "--field" (field.1 ++ '=' :: field.2))

/-- `fetch`, in `fetch_jobs`. -/
def fetchLine (ids wanted : List Text) : Text := jobVerb "fetch" ids (wanted.flatMap (option "--path"))

/-- `clean`, in `clean_host`. -/
def cleanLine (allFinished : Bool) (jobs : Option (List Text)) (olderThan : Option Token)
    (dryRun : Bool) : Text :=
  spaced ("clean".toList :: (flag "--all-finished" allFinished ++ only jobs ++ given "--older-than" olderThan
    ++ flag "--dry-run" dryRun))

/-- `_purge_args`. -/
def purgeArgs (olderThan : Token) (dryRun force : Bool) (jobs : Option (List Text)) : Text :=
  spaced ("purge".toList :: "--older-than".toList :: olderThan.text :: (flag "--dry-run" dryRun
    ++ flag "--force" force ++ only jobs))

/-- `_verified_arg`, of ids that fit into one argument. -/
def verifiedArg (verified : List Text) : Text :=
  "--verified".toList ++ ' ' :: quote (List.intercalate [','] verified)

/-- `purge`, in `purge_host`. -/
def purgeLine (olderThan : Token) (dryRun force : Bool) (jobs verified : Option (List Text)) : Text :=
  purgeArgs olderThan dryRun force jobs ++ verified.elim [] fun verified => ' ' :: verifiedArg verified

/-- **A request**, with the arguments as its caller has them. -/
inductive Request where
  | enqueue (staged : Text)
  | archiveCheckout (jobId : Token)
  | status (jobIds : List Text) (recent since : Option Token)
  | cancel (job : Text) (jobs : List Text)
  | preempt (job : Text) (jobs : List Text) (priority : Option Token)
  | set (job : Text) (jobs : List Text) (patch : List (Text × Text))
  | fetch (job : Text) (jobs wanted : List Text)
  | clean (allFinished : Bool) (jobs : Option (List Text)) (olderThan : Option Token) (dryRun : Bool)
  | purge (olderThan : Token) (dryRun force : Bool) (jobs verified : Option (List Text))
  | dataRemove (paths : List Text)
  | health (args : List Text)
  | hfCachePrune

namespace Request

/-- The text made of a request, by each caller in its own way. -/
def line : Request → Text
  | .enqueue staged => enqueueLine staged
  | .archiveCheckout jobId => archiveLine jobId
  | .status jobIds recent since => statusRequest jobIds recent since
  | .cancel job jobs => cancelLine (job :: jobs)
  | .preempt job jobs priority => preemptLine (job :: jobs) priority
  | .set job jobs patch => setLine (job :: jobs) patch
  | .fetch job jobs wanted => fetchLine (job :: jobs) wanted
  | .clean allFinished jobs olderThan dryRun => cleanLine allFinished jobs olderThan dryRun
  | .purge olderThan dryRun force jobs verified => purgeLine olderThan dryRun force jobs verified
  | .dataRemove paths => join ("data-remove".toList :: paths)
  | .health args => join ("health".toList :: args)
  | .hfCachePrune => "hf-cache-prune".toList

/-- The arguments of `--only`. -/
def onlyWords (jobs : Option (List Text)) : List Text :=
  jobs.elim [] fun ids => ["--only".toList, List.intercalate [','] ids]

/-- The words that are meant. -/
def words : Request → List Text
  | .enqueue staged => ["enqueue".toList, staged]
  | .archiveCheckout jobId => ["archive-checkout".toList, jobId.text]
  | .status jobIds recent since =>
    "status".toList :: (jobIds ++ given "--recent" recent ++ given "--since" since)
  | .cancel job jobs => "cancel".toList :: job :: jobs
  | .preempt job jobs priority => "preempt".toList :: job :: (jobs ++ given "--priority" priority)
  | .set job jobs patch =>
    "set".toList :: job :: (jobs ++ patch.flatMap fun field => ["--field".toList, field.1 ++ '=' :: field.2])
  | .fetch job jobs wanted =>
    "fetch".toList :: job :: (jobs ++ wanted.flatMap fun path => ["--path".toList, path])
  | .clean allFinished jobs olderThan dryRun =>
    "clean".toList :: (flag "--all-finished" allFinished ++ onlyWords jobs ++ given "--older-than" olderThan
      ++ flag "--dry-run" dryRun)
  | .purge olderThan dryRun force jobs verified =>
    "purge".toList :: "--older-than".toList :: olderThan.text :: (flag "--dry-run" dryRun
      ++ flag "--force" force ++ onlyWords jobs
      ++ verified.elim [] fun verified => ["--verified".toList, List.intercalate [','] verified])
  | .dataRemove paths => "data-remove".toList :: paths
  | .health args => "health".toList :: args
  | .hfCachePrune => ["hf-cache-prune".toList]

end Request

/-! ## The line that is sent -/

/-- The variables of a host's environment, in the order of their names. -/
def sortedEnv (env : Dict String String) : List (Text × Text) :=
  env.sorted.entries.map fun entry => (entry.1.toList, entry.2.toList)

def envPrefix (env : Dict String String) : Text :=
  (sortedEnv env).flatMap fun entry => assignment entry.1 entry.2 ++ [' ']

def hostPython (python home : Text) (env : Dict String String) : Text :=
  envPrefix env ++ (assignment "GPUC_HOME".toList home ++ ' ' ::
    (assignment "PYTHONPATH".toList (home ++ "/pkg".toList) ++ ' ' :: inDouble python))

def hostCommand (python home args : Text) (env : Dict String String) : Text :=
  hostPython python home env ++ ' ' :: ("-m".toList ++ ' ' :: ("gpuc.host".toList ++ ' ' :: args))

/-- What `ssh` is given to run, which it hands to the login shell. -/
def remoteLine (command : Text) : Text := "bash".toList ++ ' ' :: ("-c".toList ++ ' ' :: quote command)

def sshArgv (options : List Text) (target command : Text) : List Text :=
  "ssh".toList :: (options ++ [target, remoteLine command])

/-- `tail_command`. -/
def tailCommand (path : Text) (lines : Token) (follow retry : Bool) : Text :=
  let flags := if follow && retry then "-F".toList ++ [' '] else if follow then "-f".toList ++ [' '] else []
  "tail".toList ++ ' ' :: (flags ++ ("-n".toList ++ ' ' :: (lines.text ++ ' ' :: quote path)))

end Gpuc.Control.Commands
