import Gpuc.Host.Dispatcher
import Gpuc.Host.Project

/-!
# The lookups of the replay, and what `status` asks it

`project` keeps its `releases` by card, and looks every card that is free up in `is_shared`. The two
dictionaries start with the same cards, but a stop writes a release for each card of the stopped job,
and a running job's state may name a card nvidia-smi no longer reports. `Lookups` is the replay with
those releases beside its cards, and its steps fail where the source raises `KeyError`.

`projectedStarts` builds the question from one snapshot of the host: the resolved cards, the jobs, and
what their files say.
-/

set_option autoImplicit false

namespace Gpuc.Host

open Gpuc.Basis

/-- `KeyError`: nothing is filed under this card. -/
structure KeyError where
  uuid : Uuid
  deriving DecidableEq

/-- **The replay with all of its `releases`**: the cards have theirs in `replay`, and `strays` are the
releases of cards it was not given. -/
structure Lookups where
  replay : Replay
  strays : Dict Uuid (Option Seconds) := .empty

namespace Lookups

/-- The cards something is filed under in `releases`. -/
def releases (s : Lookups) : List Uuid := s.replay.cards.map Card.uuid ++ s.strays.keys

/-- `is_shared[uuid]`. -/
def isShared (s : Lookups) (uuid : Uuid) : Except KeyError Bool :=
  match s.replay.cards.find? fun card => card.uuid = uuid with
  | some card => .ok card.shared
  | none => .error ⟨uuid⟩

/-- The free cards, those of `strays` among them. -/
def free (s : Lookups) : List Uuid :=
  s.replay.free.map Card.uuid
    ++ (s.strays.filter fun _ release => release.any (· ≤ s.replay.clock)).keys

/-- The pool of a round, every free card looked up. -/
def pool (s : Lookups) (e : Elsewhere) : Except KeyError Pool := do
  let known ← s.free.mapM fun uuid => do
    let shared ← s.isShared uuid
    pure (uuid, shared)
  pure
    { s.replay.pool e with
      ownedFree := (known.filter fun card => !card.2).map Prod.fst
      sharedFree := some ((known.filter fun card => card.2).map Prod.fst) }

/-- `releases[uuid] = time` for each of these cards. -/
def enter (s : Lookups) (gpus : List Uuid) (time : Option Seconds) : Dict Uuid (Option Seconds) :=
  (gpus.filter fun uuid => uuid ∉ s.replay.cards.map Card.uuid).foldl
    (fun strays uuid => strays.set uuid time) s.strays

/-- A job starts. Whether its cards are shared is looked up for one that fills. -/
def start (s : Lookups) (r : Request) (gpus : List Uuid) : Except KeyError Lookups := do
  if r.fills ∧ gpus ≠ [] then
    let _ ← gpus.mapM s.isShared
  pure
    { replay := s.replay.start r gpus
      strays := s.enter gpus (r.estimateS.map (s.replay.clock + ·)) }

/-- Every job assigned cards starts. -/
def startAll (byId : Dict JobId Request) : Lookups → List Decision → Except KeyError Lookups
  | s, [] => pure s
  | s, .assigned jobId gpus _ :: ds => do
    match byId.get? jobId with
    | some r => startAll byId (← s.start r gpus) ds
    | none => startAll byId s ds
  | s, .holds .. :: ds => startAll byId s ds
  | s, .steppedOver .. :: ds => startAll byId s ds
  | s, .fails .. :: ds => startAll byId s ds

/-- A job is stopped: every card its state named is free now. -/
def stop (s : Lookups) (jobId : JobId) : Lookups where
  replay := s.replay.stop jobId
  strays :=
    match s.replay.stoppable.get? jobId with
    | none => s.strays
    | some entry => s.enter entry.job.gpus (some s.replay.clock)

def stopAll (s : Lookups) (jobIds : List JobId) : Lookups :=
  let stopped := jobIds.foldl stop s
  { stopped with
    replay := { stopped.replay with
      pending := sortedBy Request.key stopped.replay.pending } }

/-- The times at which something comes free later on. -/
def later (s : Lookups) : List Seconds :=
  s.replay.later
    ++ s.strays.values.filterMap fun release => release.filter fun at' => s.replay.clock < at'

/-- The replay as a round plans it. -/
def planned (s : Lookups) (e : Elsewhere) : Except KeyError Lookups := do
  let live := { s with replay := { s.replay with stoppable := s.replay.current } }
  let pool ← live.pool e
  pure { live with replay := { live.replay with decisions := plan s.replay.pending pool } }

/-- What fits is launched. -/
def launched (s : Lookups) (e : Elsewhere) : Except KeyError Lookups := do
  let planned ← s.planned e
  let byId := Dict.ofList (s.replay.pending.map fun r => (r.jobId, r))
  planned.startAll byId planned.replay.decisions

/-- **One round**, and whether there is another to come. -/
def round (s : Lookups) (e : Elsewhere) : Except KeyError (Lookups × Bool) := do
  let launched ← s.launched e
  match stuckPreempts launched.replay.decisions with
  | jobId :: jobIds => pure (launched.stopAll (jobId :: jobIds), true)
  | [] =>
    match launched.later.min? with
    | none => pure (launched, false)
    | some next => pure ({ launched with replay := { launched.replay with clock := next } }, true)

/-- `while pending`, within so many rounds. -/
def run (e : Elsewhere) : Nat → Lookups → Except KeyError (Option Lookups)
  | 0, _ => pure none
  | fuel + 1, s =>
    if s.replay.pending = [] then pure (some s)
    else do
      match ← s.round e with
      | (next, true) => run e fuel next
      | (last, false) => pure (some last)

end Lookups

/-- `project`, with its lookups. -/
def projectLooking (fuel : Nat) (requests : List Request) (cards : List Card) (e : Elsewhere)
    (running : List (Preemptable × Request)) (draining : Bool) :
    Except KeyError (Option Projection) :=
  if draining then pure (project fuel requests cards e running true)
  else do
    let last ← Lookups.run e fuel { replay := Replay.initial requests cards running }
    pure (last.map fun s => s.replay.answer requests running)

/-! ## What `status` asks -/

/-- One row of `table["cards"]`. -/
structure CardRow where
  uuid : Uuid
  shared : Bool
  /-- nvidia-smi answers for it, and nobody is on it. -/
  unused : Bool

/-- **The resolved cards**, no card twice. -/
structure CardTable where
  cards : List CardRow
  /-- The entries that name no card nvidia-smi reports, with whether they are shared. -/
  missing : List (String × Bool) := []
  error : Option String := none
  distinct : (cards.map CardRow.uuid).Nodup

/-- `_gpu_table`: what the configuration's entries resolve to against nvidia-smi's one reading, which
says of each card whether it is unused. -/
def gpuTable (config : HostConfig) (smi : Except String (List Gpu × (Uuid → Bool))) : CardTable :=
  let (table, unused, error) : List Gpu × (Uuid → Bool) × Option String :=
    match smi with
    | .ok (table, unused) => (table, unused, none)
    | .error message => ([], fun _ => false, some message)
  let cards := resolve config.gpus table config.sharedGpus
  { cards := (cards.owned.map fun uuid => ⟨uuid, false, unused uuid⟩)
      ++ cards.shared.map fun uuid => ⟨uuid, true, unused uuid⟩
    missing := cards.missing.map (·, false) ++ cards.sharedMissing.map (·, true)
    error := error
    distinct := by
      have hkept : ∀ (row : Uuid → CardRow) (uuids : List Uuid), (∀ uuid, (row uuid).uuid = uuid) →
          (uuids.map row).map CardRow.uuid = uuids := fun row uuids hrow => by
        rw [List.map_map]
        exact List.map_id'' hrow uuids
      rw [List.map_append, hkept _ _ fun _ => rfl, hkept _ _ fun _ => rfl]
      exact resolve_nodup config.gpus table config.sharedGpus }

/-- **One snapshot of a host**, as `status` reads it. -/
structure Snapshot where
  config : HostConfig
  table : CardTable
  jobs : Jobs
  draining : Bool := false
  /-- `parse_time`. -/
  stamp : String → Option Seconds
  /-- The clock, when the times of the card or job named are looked at. -/
  now : String → Seconds

namespace Snapshot
variable (s : Snapshot)

/-- The running jobs, by job id. -/
def running : Dict JobId JobDir := s.jobs.filter fun _ dir => dir.state.status = .running

/-- The state of the running job that holds each card. -/
def holder : Dict Uuid JobState :=
  Dict.ofList <| s.running.values.flatMap fun dir => dir.state.gpus.map fun uuid => (uuid, dir.state)

/-- Now for a card nobody holds or whose job is being stopped, its holder's eta otherwise. -/
def release (uuid : Uuid) : Option Seconds :=
  match s.holder.get? uuid with
  | none => some 0
  | some state =>
    if state.intent ≠ none then some 0
    else (state.eta.bind s.stamp).map fun eta => max 0 (eta - s.now uuid)

/-- May the row's card be handed out? -/
def offers (row : CardRow) : Bool :=
  !row.shared || row.uuid ∈ s.holder.keys || row.unused

def cards : List Card :=
  (s.table.cards.filter s.offers).map fun row => ⟨row.uuid, row.shared, s.release row.uuid⟩

def elsewhere : Elsewhere where
  ownedMissing := (s.table.missing.filter fun m => !m.2).map Prod.fst
  sharedMissing := (s.table.missing.filter fun m => m.2).map Prod.fst
  theirs := s.table.cards.countP fun row => !s.offers row

/-- `request`: a job as `plan` sees it. -/
def request (jobId : JobId) (spec : JobSpec) (state : JobState) : Request where
  jobId := jobId
  gpus := spec.gpus
  borrows := s.config.mayBorrow spec
  estimateS := state.estimatedRuntimeMin.map (· * 60)
  priority := state.priority
  fills := spec.autoPreempt

/-- The queue, less the jobs whose spec cannot be read. -/
def requests : List Request :=
  (listQueued s.jobs).filterMap fun entry => do
    let dir ← s.jobs.get? entry.jobId
    let spec ← dir.spec
    pure (s.request entry.jobId spec dir.state)

/-- The running jobs automatic preemption may stop, with what each is queued again as. -/
def stoppable : List (Preemptable × Request) :=
  s.running.sorted.entries.filterMap fun (jobId, dir) => do
    let spec ← dir.spec
    if spec.autoPreempt = false ∨ dir.state.intent ≠ none then none
    else
      let since :=
        match dir.state.startedAt.bind s.stamp with
        | none => 0
        | some started => s.now jobId - started
      pure
        ({ jobId := jobId
           priority := dir.state.priority
           gpus := dir.state.gpus
           started := -since
           owned := dir.state.gpus.countP fun uuid =>
             s.table.cards.any fun row => row.uuid = uuid ∧ row.shared = false
           borrowed := dir.state.gpus.countP fun uuid =>
             s.table.cards.any fun row => row.uuid = uuid ∧ row.shared = true },
          s.request jobId spec dir.state)

/-- The requests handed to `project`: without nvidia-smi, those for no cards. -/
def asked : List Request :=
  match s.table.error with
  | none => s.requests
  | some _ => s.requests.filter fun r => r.gpus = 0

/-- Why nothing is known of the rest. -/
def unread : Dict JobId String :=
  match s.table.error with
  | none => .empty
  | some error =>
    Dict.ofList <| (s.requests.filter fun r => r.gpus ≠ 0).map fun r =>
      (r.jobId, s!"nvidia-smi could not be read on the host ({error})")

/-- **`projected_starts`**: when each queued job is expected to start, within so many rounds. -/
def projectedStarts (fuel : Nat) : Except KeyError (Option Projection) := do
  let answer ← projectLooking fuel s.asked s.cards s.elsewhere s.stoppable s.draining
  pure <| answer.map fun projection =>
    { projection with
      unknown := projection.unknown.entries.foldl (fun d (k, v) => d.set k v) s.unread }

end Snapshot

end Gpuc.Host
