import Gpuc.Host.Plan
import Gpuc.Laws.Plan.Walk
import Gpuc.Laws.Plan.Replan
import Gpuc.Basis.Dict
import Gpuc.Host.Project
import Gpuc.Laws.Project.Replay
import Gpuc.Basis.Counting
import Gpuc.Basis.Weight
import Gpuc.Laws.Project.Excess
import Gpuc.Laws.Project.Rounds
import Gpuc.Laws.Project.Terminates
import Gpuc.Laws.Project.Answers
import Gpuc.Basis.Run
import Gpuc.Host.Queue
import Gpuc.Host.Settable
import Gpuc.Host.Runner
import Gpuc.Laws.Job.LifeCycle
import Gpuc.Host.Cards
import Gpuc.Host.Dispatcher
import Gpuc.Host.Machine
import Gpuc.Laws.Machine.Step
import Gpuc.Laws.Machine.Cancel
import Gpuc.Laws.Machine.Accounts
import Gpuc.Laws.Machine.Cards
import Gpuc.Basis.Json
import Gpuc.Laws.Plan.Order
import Gpuc.Control.Registry
import Gpuc.Laws.Control.Registry
import Gpuc.Basis.Format
import Gpuc.Control.Submit
import Gpuc.Laws.Control.Templates
import Gpuc.Laws.Control.Secrets
import Gpuc.Snakemake.Executor
import Gpuc.Laws.Snakemake.Adopt
import Gpuc.Basis.Effect
import Gpuc.Control.Providers
import Gpuc.Control.Provision
import Gpuc.Laws.Control.Rental.Attempt
import Gpuc.Laws.Control.Rental.SecondBill
import Gpuc.Laws.Control.Rental.Unreported
import Gpuc.Host.Uploads
import Gpuc.Laws.Job.Uploads
import Gpuc.Laws.Machine.Drain
import Gpuc.Laws.Machine.Supervised
import Gpuc.Basis.Glob
import Gpuc.Host.Sync
import Gpuc.Laws.Job.Handed
import Gpuc.Basis.Endless
import Gpuc.Host.Passes
import Gpuc.Laws.Machine.Passes
import Gpuc.Laws.Plan.Front
import Gpuc.Laws.Machine.Advances
import Gpuc.Laws.Machine.PassSteps
import Gpuc.Laws.Machine.Livelock
import Gpuc.Laws.Plan.Fill
import Gpuc.Laws.Plan.Stops
import Gpuc.Host.Lookups
import Gpuc.Laws.Plan.SecondWalk
import Gpuc.Laws.Project.Lookups
import Gpuc.Host.Ladder
import Gpuc.Basis.Float64
import Gpuc.Laws.Job.Ladder
import Gpuc.Basis.Convert
import Gpuc.Host.Documents
import Gpuc.Laws.Job.Documents
import Gpuc.Host.Owner
import Gpuc.Laws.Machine.Owner
import Gpuc.Basis.Decode
import Gpuc.Control.Remote
import Gpuc.Laws.Control.Config
import Gpuc.Basis.FileTree
import Gpuc.Host.Cleanup
import Gpuc.Laws.Job.KeptOutputs
import Gpuc.Control.Connect
import Gpuc.Laws.Job.Merged
import Gpuc.Laws.Control.Connect
import Gpuc.Laws.Control.Changes
import Gpuc.Laws.Job.Limit
import Gpuc.Host.Fetch
import Gpuc.Laws.Job.Fetched
import Gpuc.Laws.Job.Composed
import Gpuc.Laws.Job.RoundTrip
import Gpuc.Basis.Rounding
import Gpuc.Host.Patch
import Gpuc.Laws.Job.Patched
import Gpuc.Laws.Machine.Resolved
import Gpuc.Control.Wait
import Gpuc.Control.Locate
import Gpuc.Laws.Control.Locate
import Gpuc.Laws.Control.Wait
import Gpuc.Control.Verbs
import Gpuc.Laws.Control.Verbs
import Gpuc.Basis.Encode
import Gpuc.Control.S3Index
import Gpuc.Host.Purge
import Gpuc.Laws.Control.LastJson
import Gpuc.Laws.Control.S3Index
import Gpuc.Laws.Job.NewContent
import Gpuc.Basis.Object
import Gpuc.Control.HostDocument
import Gpuc.Control.Requeue
import Gpuc.Control.RunPod
import Gpuc.Control.Teardown
import Gpuc.Laws.Control.HostDocument
import Gpuc.Laws.Control.Requeue
import Gpuc.Laws.Control.RunPod
import Gpuc.Laws.Snakemake.InFlight
import Gpuc.Basis.Hoare
import Gpuc.Basis.Locked
import Gpuc.Host.Attempt
import Gpuc.Laws.Job.Attempt
import Gpuc.Laws.Job.DryRun
import Gpuc.Laws.Job.Sections
import Gpuc.Basis.Held
import Gpuc.Basis.Shell
import Gpuc.Control.Commands
import Gpuc.Control.Sessions
import Gpuc.Host.DiskUsage
import Gpuc.Host.DispatcherLock
import Gpuc.Laws.Control.Commands
import Gpuc.Laws.Control.Sessions
import Gpuc.Laws.Job.Reclaimed
import Gpuc.Laws.Machine.DispatcherLock
import Gpuc.Host.Checkout
import Gpuc.Laws.Job.Checkout
