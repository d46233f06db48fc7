import Gpuc.Basis.Convert
import Gpuc.Control.Registry

/-!
# Which host a job is on

`locate_many` places each id: where the local index has it on a registered host, there, and nobody is
asked; else the hosts are asked, first the ones the index names for the ids still to place, then every
host that can be asked about every id that is still not found.

A round's answers come from outside, one a host (`World`): what asking it came to, and the document it
printed. What is asked is in `asks`, in order. The names of the registry's entries are their own, which
need not be the keys they stand under.
-/

set_option autoImplicit false

namespace Gpuc.Control.Locate

open Gpuc.Basis

/-! ## What is known, and what a host says -/

/-- One job, as the index remembers it. -/
structure IndexEntry where
  jobId : String := ""
  host : String := ""
  deriving DecidableEq

/-- What asking a host comes to: `Answered`, with the document it printed, or why it could not be asked,
or why it is gone. -/
inductive Asked where
  | answered (payload : Dict String Json)
  | unaskable (reason : String)
  | gone (reason : String)

/-- The two rounds of questions. -/
inductive Round where
  | named
  | everyone
  deriving DecidableEq

/-- A question to a host about ids. -/
structure Question where
  round : Round
  host : String
  jobIds : List String
  deriving DecidableEq

/-- **What this machine has on disk, and what a host answers in each round.** -/
structure World where
  registry : Registry
  /-- The names of the entries that could not be read. -/
  skipped : List String
  localIndex : String → Option IndexEntry
  /-- The index in S3. -/
  mirrorIndex : String → Option IndexEntry
  answer : Round → String → Asked

/-- Where a job is. `entry` is nothing for a host that cannot be opened here, and `asked` is nothing
where nothing had to be asked. -/
structure Location where
  host : String
  entry : Option HostEntry := none
  index : Option IndexEntry := none
  asked : Option Asked := none

/-- A place for a job, or why there is none. `missing`: every host that could have it answered without
it. -/
inductive Placed where
  | location (location : Location)
  | unlocated (reason : String) (missing : Bool)

/-- What a lookup raises. -/
inductive Failure where
  /-- A dictionary has no such key. -/
  | key (name : String)
  /-- What is gone through is nothing that can be gone through. -/
  | type
  deriving DecidableEq

def notRegistered (name : String) : Asked :=
  .gone (s!"host {name} is not registered on this machine (a rental that ended is " ++
    "forgotten), so it cannot be asked")

def unreadableEntry (name : String) : Asked :=
  .unaskable (s!"host {name}'s registry entry could not be read (see the warning above), so it " ++
    "was not asked; fix the entry, or register the host again with " ++
    s!"\x60gpuc host add {name} --pod <id>\x60")

section World
variable (w : World)

/-- `JobIndex.get`. -/
def World.index (jobId : String) : Option IndexEntry := (w.localIndex jobId).or (w.mirrorIndex jobId)

/-! ## One round -/

/-- What a loop goes through. -/
def iterated : Json → Except Failure (List Json)
  | .arr items => .ok items
  | .str s => .ok (s.toList.map fun c => .str (String.singleton c))
  | .obj pairs => .ok ((Dict.ofList pairs).keys.map .str)
  | .null | .bool _ | .int _ | .float _ => .error .type

/-- The `jobs` of an answer: nothing there, or nothing in it, is no jobs. -/
def Asked.jobs : Asked → Except Failure (List Json)
  | .answered payload =>
    match (payload.get? "jobs").filter Json.truthy with
    | none => .ok []
    | some jobs => iterated jobs
  | .unaskable _ | .gone _ => .ok []

/-- The id a job of a document has, if it is a string. -/
def idOf (job : Json) : Option String :=
  match job.members.bind fun fields => fields.get? "job_id" with
  | some (.str id) => some id
  | _ => none

/-- What has been asked and found so far. -/
structure Heard where
  latest : Dict String Asked := Dict.empty
  first : Dict String Asked := Dict.empty
  /-- Which host has a job, and its answer. -/
  found : Dict String (String × Asked) := Dict.empty
  asks : List Question := []

/-- The jobs of an answer that were asked about, where no host has been found for them yet. -/
def findJobs (name : String) (asked : Asked) (jobIds : List String) (jobs : List Json)
    (found : Dict String (String × Asked)) : Dict String (String × Asked) :=
  jobs.foldl (fun found job =>
    match idOf job with
    | some id => if id ∈ jobIds then found.setDefault id (name, asked) else found
    | none => found) found

/-- One host of a round: its entry is looked up, it is asked, and its answer read. -/
def askOne (round : Round) (heard : Heard) (question : String × List String) : Except Failure Heard :=
  match w.registry.hosts.get? question.1 with
  | none => .error (.key question.1)
  | some _ =>
    let asked := w.answer round question.1
    asked.jobs.map fun jobs =>
      { latest := heard.latest.set question.1 asked
        first := heard.first.setDefault question.1 asked
        found := findJobs question.1 asked question.2 jobs heard.found
        asks := heard.asks ++ [{ round, host := question.1, jobIds := question.2 }] }

/-- **`ask_each`**: the hosts of a round, their answers read in order. -/
def askEach (round : Round) (questions : Dict String (List String)) (heard : Heard) :
    Except Failure Heard :=
  questions.entries.foldlM (askOne w round) heard

/-! ## `_ask_around` -/

/-- The registered host that the index names for a job. -/
def named (indexed : Option IndexEntry) : Option HostEntry :=
  indexed.bind fun indexed => w.registry.hosts.get? indexed.host

/-- `by_named`: the ids to ask each named host about. -/
def byNamed (unplaced : Dict String (Option IndexEntry)) : Dict String (List String) :=
  .grouped (unplaced.entries.filterMap fun e => (named w e.2).map fun entry => (entry.name, e.1))

/-- Has a host answered, or not been asked yet? -/
def Heard.askable (heard : Heard) (name : String) : Bool :=
  match heard.latest.get? name with
  | none | some (.answered _) => true
  | some (.unaskable _) | some (.gone _) => false

/-- `everyone`: the ids still not found, for each host that was not asked about them. -/
def everyone (unplaced : Dict String (Option IndexEntry)) (heard : Heard) : Dict String (List String) :=
  let rest := unplaced.entries.filter fun e => decide (e.1 ∉ heard.found.keys)
  w.registry.hosts.filterMap fun name _ =>
    if heard.askable name then
      let wanted := (rest.filter fun e => (named w e.2).all fun entry => entry.name ≠ name).map Prod.fst
      if wanted = [] then none else some wanted
    else none

/-- Why each host could not be asked, the job's own host aside. -/
def unasked (heard : Heard) (entry : Option HostEntry) : List String :=
  heard.latest.entries.filterMap fun e =>
    match e.2 with
    | .unaskable reason =>
      if entry.all fun entry => e.1 ≠ entry.name then some s!"{e.1}: {reason}" else none
    | .answered _ | .gone _ => none

/-- What both rounds came to for one id. -/
def settle (heard : Heard) (jobId : String) (indexed : Option IndexEntry) : Except Failure Placed :=
  let entry := named w indexed
  match heard.found.get? jobId with
  | some (name, asked) =>
    match w.registry.hosts.get? name with
    | none => .error (.key name)
    | some host =>
      .ok (.location { host := name, entry := some host, index := indexed, asked := some asked })
  | none =>
    match entry, entry.bind fun entry => heard.first.get? entry.name with
    | some entry, some (.unaskable reason) =>
      .ok (.location
        { host := entry.name, entry := some entry, index := indexed, asked := some (.unaskable reason) })
    | some entry, some (.gone reason) =>
      .ok (.location
        { host := entry.name, entry := some entry, index := indexed, asked := some (.gone reason) })
    | _, _ =>
      let unasked := unasked heard entry
      match indexed, entry, unasked with
      | some indexed, none, [] =>
        .ok (.location
          { host := indexed.host, index := some indexed, asked := some (notRegistered indexed.host) })
      | _, _, _ :: _ =>
        .ok (.unlocated
          (s!"no host that answered knows job {jobId}, and these could not be asked:\n" ++
            "\n".intercalate (unasked.map fun line => s!"  {line}") ++
            "\nPass --host <name>, or check \x60gpuc host list\x60 and \x60gpuc status --all\x60.") false)
      | _, _, [] =>
        .ok (.unlocated
          (s!"no registered host knows job {jobId}.\n" ++
            "Pass --host <name>, or check \x60gpuc host list\x60 and \x60gpuc status --all\x60.") true)

/-- **`_ask_around`**: a place for each id that needs a host to say it has it, and what was asked. -/
def askAround (unplaced : Dict String (Option IndexEntry)) :
    Except Failure (List (String × Placed) × List Question) := do
  let heard ← askEach w .named (byNamed w unplaced) {}
  let heard ← askEach w .everyone (everyone w unplaced heard) heard
  let placed ← unplaced.entries.mapM fun e => (e.1, ·) <$> settle w heard e.1 e.2
  pure (placed, heard.asks)

/-! ## `locate_many` -/

/-- Where the index alone places an id, or its index entry. -/
def placeByIndex (jobId : String) : Placed ⊕ Option IndexEntry :=
  match (w.localIndex jobId).bind fun indexed =>
      (w.registry.hosts.get? indexed.host).map fun entry => (indexed, entry) with
  | some (indexed, entry) =>
    -- not asked: the verb or the poll that follows asks it anyway
    .inl (.location { host := indexed.host, entry := some entry, index := some indexed })
  | none =>
    match (w.localIndex jobId).or (w.index jobId) with
    | some indexed =>
      if indexed.host ∉ w.registry.hosts.keys ∧ indexed.host ∈ w.skipped then
        .inl (.location
          { host := indexed.host, index := some indexed, asked := some (unreadableEntry indexed.host) })
      else .inr (some indexed)
    | none => .inr none

/-- `Registry.require` of a name that is not there. -/
def hostNotFound (t : Texts) (name : String) : String :=
  let known := ", ".intercalate (sortedBy String.toList w.registry.hosts.keys)
  let known := if known = "" then "(none)" else known
  s!"no host named {t.quote name}. Known hosts: {known}.\n" ++
    s!"Add it with: gpuc host add {name} --ssh user@host"

/-- **`_on_named_host`**: a job on the host that `--host` names, which is not asked. -/
def onNamedHost (t : Texts) (jobId name : String) : Placed :=
  match w.registry.hosts.get? name with
  | some entry =>
    .location { host := entry.name, entry := some entry, index := w.localIndex jobId }
  | none =>
    if name ∈ w.skipped then
      .location { host := name, index := w.localIndex jobId, asked := some (unreadableEntry name) }
    else
      let indexed := (w.localIndex jobId).or (w.index jobId)
      let gone := Placed.location { host := name, index := indexed, asked := some (notRegistered name) }
      -- gone only where the index agrees that the job ran there
      match indexed with
      | none => .unlocated (hostNotFound w t name) true
      | some entry =>
        if entry.host ≠ name then
          .unlocated
            (hostNotFound w t name ++ s!"\nThe index has job {jobId} on host {entry.host}.") true
        else gone

/-- The ids that the index alone does not place. -/
def unplacedOf (jobIds : List String) : Dict String (Option IndexEntry) :=
  .ofList (jobIds.filterMap fun jobId =>
    match placeByIndex w jobId with
    | .inl _ => none
    | .inr indexed => some (jobId, indexed))

/-- The ids that it places, with their places. -/
def placedOf (jobIds : List String) : List (String × Placed) :=
  jobIds.filterMap fun jobId =>
    match placeByIndex w jobId with
    | .inl placed => some (jobId, placed)
    | .inr _ => none

/-- What is asked around for, if anything is. -/
def askUnplaced (unplaced : Dict String (Option IndexEntry)) :
    Except Failure (List (String × Placed) × List Question) :=
  if unplaced.entries = [] then .ok ([], []) else askAround w unplaced

/-- One id's place, out of all of them. -/
def answerOf (placed : Dict String Placed) (jobId : String) : Except Failure (String × Placed) :=
  match placed.get? jobId with
  | some place => .ok (jobId, place)
  | none => .error (.key jobId)

/-- **`locate_many`**: a place for each id, in the order asked and each repeat once, and what was asked
of which host. -/
def locateMany (t : Texts) (jobIds : List String) (explicit : Option String) :
    Except Failure (Dict String Placed × List Question) :=
  let ids := jobIds.eraseDups
  match explicit.filter fun name => name ≠ "" with
  | some name => .ok (.ofList (ids.map fun jobId => (jobId, onNamedHost w t jobId name)), [])
  | none => do
    let (found, asks) ← askUnplaced w (unplacedOf w ids)
    let answers ← ids.mapM (answerOf (.ofList (placedOf w ids ++ found)))
    pure (.ofList answers, asks)

end World

end Gpuc.Control.Locate
