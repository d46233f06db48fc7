import Gpuc.Host.Documents
import Gpuc.Host.Jobs

/-!
# Waiting for jobs to end

`wait` polls a host for the jobs it waits for there. A host that cannot be asked, or that no longer
knows a job it has shown, is in trouble: a clock starts, and a patient watch settles jobs only once
that clock has run for `TROUBLE_GRACE_S`, from the mirror if it has their end, else with an error.

A watch is one host's part of it, and a poll is what one round found: the time, what asking the host
came to, and what the mirror holds. Jobs of different hosts have nothing in common. What a line printed
besides is in `notes`.
-/

set_option autoImplicit false

namespace Gpuc.Control.Wait

open Gpuc.Basis
open Gpuc.Host (Status Seconds)

/-- `TROUBLE_GRACE_S`. -/
def troubleGraceS : Seconds := 300

/-! ## What the host and the mirror say -/

/-- What a host says of a job, as far as a wait reads it. -/
structure JobView where
  jobId : String
  status : Status
  deriving DecidableEq, Repr

/-- A host's answer, as far as a wait reads it. -/
structure HostView where
  queue : List JobView
  running : List JobView
  finished : List JobView
  dispatcherAlive : Bool

/-- The view of each job in an answer, the last one of a job that has several. -/
def HostView.views (view : HostView) : Dict String JobView :=
  .ofList ((view.queue ++ view.running ++ view.finished).map fun job => (job.jobId, job))

/-- What asking a host comes to. -/
inductive Asked where
  | answered (view : HostView)
  | unaskable (reason : String)
  | gone (reason : String)

/-- What S3 holds of a job. -/
inductive Mirror where
  /-- It has no mirror, and why. -/
  | unmirrored (missing : String)
  /-- Its `state.json`, if there is one, as `job_views` reads it: those that are neither queued nor
  running. -/
  | mirrored (uri : String) (finished : List JobView)

structure Mirrored where
  view : Option JobView := none
  uri : String := ""
  lost : String := ""

/-- **`read_mirror`**: a job's final state, or why there is none. -/
def readMirror (jobId : String) : Mirror → Mirrored
  | .unmirrored missing => { lost := s!"{missing}, so it went with its host" }
  | .mirrored uri finished =>
    match finished.find? fun view => view.status.finished with
    | none =>
      { uri := uri
        lost := s!"the mirror has no final state for job {jobId} at {uri}, so its host went " ++
          "before it ended and it never will" }
    | some view => { view := some view, uri := uri }

/-! ## The state of a watch -/

inductive Source where
  | host
  | mirror
  deriving DecidableEq, Repr

/-- What a job's host was found to be. -/
inductive HostState where
  | answered
  | unaskable
  | gone
  deriving DecidableEq, Repr

/-- One job being waited on, and the last thing its host said about it. -/
structure Watched where
  jobId : String
  view : Option JobView := none
  /-- Why it stopped being waited for without an end. -/
  error : Option String := none
  seen : Bool := false
  /-- The host answered and does not have it. -/
  missing : Bool := false
  source : Source := .host
  hostState : HostState := .answered
  deriving DecidableEq, Repr

def Watched.finished (watched : Watched) : Bool := watched.view.any fun view => view.status.finished

/-- Nothing more will be learned by asking again. -/
def Watched.settled (watched : Watched) : Bool := watched.finished || watched.error.isSome

/-- The trouble a host is in: since when, and what was last said about it. -/
structure Trouble where
  since : Seconds
  why : String
  deriving DecidableEq, Repr

/-- What a watch remembers of its host, and what it has noted. -/
structure Line where
  trouble : Option Trouble := none
  /-- It has been said that nobody serves the queue. -/
  warned : Bool := false
  notes : List String := []
  deriving DecidableEq, Repr

def Line.note (line : Line) (text : String) : Line := { line with notes := line.notes ++ [text] }

/-- **A watch of one host.** -/
structure Watch where
  name : String
  patient : Bool
  /-- Why it is not asked at all, where it was found gone before. -/
  gone : Option String
  jobs : List Watched
  line : Line := {}

/-- The watch of jobs of a host, before its first poll. -/
def Watch.start (name : String) (jobIds : List String) (patient : Bool := true)
    (gone : Option String := none) : Watch :=
  { name, patient, gone, jobs := jobIds.map fun jobId => { jobId } }

/-- **One poll**: when it is, and what it finds. -/
structure Poll where
  now : Seconds
  asked : Asked
  mirror : String → Mirror

/-- What asking comes to: a host found gone before is not asked. -/
def Watch.ask (watch : Watch) (poll : Poll) : Asked :=
  match watch.gone with
  | some reason => .gone reason
  | none => poll.asked

/-! ## How long -/

/-- `:02d`. -/
def twoDigits (n : Nat) : String := if n < 10 then s!"0{n}" else toString n

/-- **`format_duration`**, of a number of seconds. -/
def formatDuration (seconds : Seconds) : String :=
  let seconds := max 0 seconds
  let minutes := halfEven seconds.num.toNat (seconds.den * 60)
  if minutes = 0 then s!"{halfEven seconds.num.toNat seconds.den}s"
  else if minutes < 60 then s!"{minutes}m"
  else
    let hours := minutes / 60
    if hours < 24 then s!"{hours}h{twoDigits (minutes % 60)}m"
    else s!"{hours / 24}d{twoDigits (hours % 24)}h"

/-! ## One poll -/

section Poll
variable (watch : Watch) (poll : Poll)

/-- **`_from_mirror`**: a job's outcome from S3, if the mirror has a terminal one. -/
def fromMirror (watched : Watched) (line : Line) : Mirrored × Watched × Line :=
  let mirrored := readMirror watched.jobId (poll.mirror watched.jobId)
  match mirrored.view with
  | none => (mirrored, watched, line)
  | some view =>
    (mirrored, { watched with view := some view, source := .mirror },
      line.note s!"read {watched.jobId} from the mirror at {mirrored.uri}")

/-- The end of `_trouble_with`, for one job that is no longer waited for. -/
def giveUp (why waited : String) (gone : Bool) (state : HostState) (watched : Watched) (line : Line) :
    Watched × Line :=
  let watched := { watched with hostState := if gone then .gone else state }
  if gone then
    let (mirrored, watched, line) := fromMirror poll watched line
    match mirrored.view with
    | none =>
      ({ watched with error := some s!"host {watch.name} is gone ({why}), and {mirrored.lost}" }, line)
    | some _ => (watched, line)
  else
    let error := some s!"host {watch.name} could not be asked{waited}: {why}"
    if watch.patient then
      let (mirrored, watched, line) := fromMirror poll watched line
      match mirrored.view with
      | none => ({ watched with error := error }, line)
      | some _ => (watched, line)
    else ({ watched with error := error }, line)

/-- A step for each job that has not settled, in order; what one leaves of the line the next finds. -/
def eachPending (step : Watched → Line → Watched × Line) : List Watched → Line → List Watched × Line
  | [], line => ([], line)
  | watched :: rest, line =>
    let (watched, line) := if watched.settled then (watched, line) else step watched line
    let (rest, line) := eachPending step rest line
    (watched :: rest, line)

/-- Since when the host is in trouble, if it is in trouble now. -/
def Line.since (line : Line) (now : Seconds) : Seconds := (line.trouble.map (·.since)).getD now

/-- Is a host in trouble still given time? -/
def waits (gone : Bool) (line : Line) : Bool :=
  !gone && watch.patient && poll.now - line.since poll.now < troubleGraceS

/-- The trouble noted, and noted again when it is another. -/
def troubled (why : String) (gone : Bool) (line : Line) : Line :=
  let said := (line.trouble.map (·.why)).getD ""
  let line' :=
    if said ≠ why then
      line.note (if waits watch poll gone line then s!"host {watch.name}: {why}; still waiting"
        else s!"host {watch.name}: {why}")
    else line
  { line' with trouble := some { since := line.since poll.now, why } }

/-- How long it has been in trouble, as the error puts it. -/
def waited (line : Line) : String :=
  if poll.now > line.since poll.now then s!" for {formatDuration (poll.now - line.since poll.now)}"
  else ""

/-- **`_trouble_with`**, of the jobs that are pending. -/
def troubleWith (pending : List Watched) (why : String) (gone : Bool) (state : HostState)
    (line : Line) : List Watched × Line :=
  let after := troubled watch poll why gone line
  if waits watch poll gone line then (pending, after)
  else eachPending (giveUp watch poll why (waited poll line) gone state) pending after

/-- **`_vanished`**: the host answers without the job. -/
def vanished (watched : Watched) (line : Line) : Watched × Line :=
  if !watched.seen then
    ({ watched with
        missing := true, error := some s!"host {watch.name} has no job {watched.jobId}" }, line)
  else
    -- a purge, or a host that lost its state: trouble rather than an answer
    let (jobs, line) :=
      troubleWith watch poll [watched] s!"no longer knows job {watched.jobId}" false .answered line
    (jobs.headD watched, line)

/-- `_clear_trouble`. -/
def clearTrouble (line : Line) : Line :=
  match line.trouble with
  | none => line
  | some _ => { line with trouble := none }.note s!"host {watch.name} is answering again"

/-- `_check_dispatcher`: said once, that nobody serves the queue. -/
def checkDispatcher (view : HostView) (queued : Bool) (line : Line) : Line :=
  if !queued || view.dispatcherAlive || line.warned then line
  else
    { line with warned := true }.note
      (s!"host {watch.name}: dispatcher DOWN, so nothing there will start a queued job; " ++
        s!"\x60gpuc host bootstrap {watch.name}\x60 restarts it")

/-- What an answer makes of one job. -/
def heard (views : Dict String JobView) (watched : Watched) (line : Line) : Watched × Line :=
  match views.get? watched.jobId with
  | none => vanished watch poll watched line
  | some job => ({ watched with view := some job, seen := true }, line)

/-- Is one of the jobs that are waited for queued? -/
def waitingToStart (views : Dict String JobView) (jobs : List Watched) : Bool :=
  (jobs.filter fun watched => !watched.settled).any fun watched =>
    (views.get? watched.jobId).any fun job => job.status = .queued

/-- **`_poll_host`**: the jobs, and what is remembered of the host. -/
def pollHost : List Watched × Line :=
  if watch.jobs.all Watched.settled then (watch.jobs, watch.line)
  else
    match watch.ask poll with
    | .gone reason => troubleWith watch poll watch.jobs reason true .unaskable watch.line
    | .unaskable reason => troubleWith watch poll watch.jobs reason false .unaskable watch.line
    | .answered view =>
      let line := checkDispatcher watch view (waitingToStart view.views watch.jobs)
        (clearTrouble watch watch.line)
      eachPending (heard watch poll view.views) watch.jobs line

end Poll

/-- The watch after a poll. -/
def Watch.poll (watch : Watch) (poll : Poll) : Watch :=
  let (jobs, line) := pollHost watch poll
  { watch with jobs, line }

/-- **`block`**, as far as it has come: one poll after another. -/
def Watch.run (watch : Watch) (polls : List Poll) : Watch := polls.foldl Watch.poll watch

/-- The jobs still waited for. -/
def Watch.pending (watch : Watch) : List Watched := watch.jobs.filter fun watched => !watched.settled

/-- What the watch has of a job. -/
def Watch.job? (watch : Watch) (jobId : String) : Option Watched :=
  watch.jobs.find? fun watched => watched.jobId = jobId

end Gpuc.Control.Wait
