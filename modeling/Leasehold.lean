import Leasehold.Agent.LogFilter
import Leasehold.Agent.OpenStore
import Leasehold.Agent.Options
import Leasehold.Agent.Process
import Leasehold.Agent.Session
import Leasehold.Agent.StoreUrl
import Leasehold.Clock
import Leasehold.Duration
import Leasehold.Error
import Leasehold.Json.Decode
import Leasehold.Json.Fault
import Leasehold.Json.Numeral
import Leasehold.Json.Reader
import Leasehold.Json.Shape
import Leasehold.Json.Writer
import Leasehold.Keyed
import Leasehold.Main
import Leasehold.Manager.Basic
import Leasehold.Manager.Link
import Leasehold.Manager.Note
import Leasehold.Manager.OwnerId
import Leasehold.Manager.Scheduler
import Leasehold.Manager.Tasks
import Leasehold.Manager.Worker
import Leasehold.Postgres.Address
import Leasehold.Postgres.Client
import Leasehold.Postgres.Dialect
import Leasehold.Postgres.Server
import Leasehold.Postgres.Session
import Leasehold.Postgres.Statement
import Leasehold.Postgres.TlsMode
import Leasehold.Record
import Leasehold.Scenario.Stage
import Leasehold.Scenario.Step
import Leasehold.Settings
import Leasehold.Store.Backend
import Leasehold.Store.DatabaseFile
import Leasehold.Store.Direct
import Leasehold.Store.Memory
import Leasehold.Store.Request
import Leasehold.Store.Sqlite
import Leasehold.Store.Table
import Leasehold.Text.CaseTable
import Leasehold.Text.HiddenTable
import Leasehold.Text.Lowercase
import Leasehold.Text.Quoted
import Leasehold.World.Basic
import Leasehold.World.Settle
import Leasehold.World.Snapshot
import Leasehold.World.Trial
import Leasehold.Proofs.Holdings
import Leasehold.Proofs.WorkerMoves
import Leasehold.Proofs.ManagerMoves
import Leasehold.Proofs.WorldMoves
import Leasehold.Proofs.Lifecycle
import Leasehold.Proofs.Ledger
import Leasehold.Proofs.Flags
import Leasehold.Proofs.Notes
import Leasehold.Proofs.Calls
import Leasehold.Proofs.Chronicle
import Leasehold.Proofs.Adrift
import Leasehold.Proofs.Events
import Leasehold.Proofs.Deeds
import Leasehold.Proofs.Soundness
import Leasehold.Proofs.Backing
import Leasehold.Proofs.Exclusion
import Leasehold.Proofs.Running
import Leasehold.Proofs.Pacing
import Leasehold.Proofs.Fleet
import Leasehold.Proofs.Retention
import Leasehold.Proofs.Trouble
import Leasehold.Proofs.Starting
import Leasehold.Proofs.Lifespan
import Leasehold.Proofs.Delivery
import Leasehold.Proofs.CycleStarts
import Leasehold.Proofs.Gate
import Leasehold.Proofs.Ownership
import Leasehold.Proofs.Expirations
import Leasehold.Proofs.Afterlife
import Leasehold.Proofs.Setback
import Leasehold.Proofs.Recovery
import Leasehold.Proofs.OneTable
import Leasehold.Proofs.ReadBack
import Leasehold.Proofs.Connection
import Leasehold.Proofs.Upkeep
import Leasehold.Proofs.Handoff
import Leasehold.Proofs.Seclusion
import Leasehold.Proofs.FirstStart
import Leasehold.Proofs.Disabled
import Leasehold.Proofs.ClockCheck
import Leasehold.Proofs.CycleCourse
import Leasehold.Proofs.CycleResult
import Leasehold.Proofs.FreshGround
import Leasehold.Proofs.Deadlines
import Leasehold.Proofs.Farewell
import Leasehold.Proofs.Orphans
import Leasehold.Proofs.Departure
import Leasehold.Proofs.Coalescing
import Leasehold.Proofs.Locations
import Leasehold.Proofs.Closing
import Leasehold.Proofs.AnyOrder
import Leasehold.Proofs.Handshake
import Leasehold.Proofs.ModeNames
import Leasehold.Proofs.Tally
import Leasehold.Proofs.Confirmation
import Leasehold.Proofs.Margins
