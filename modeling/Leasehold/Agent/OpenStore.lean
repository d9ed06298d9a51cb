import Leasehold.Agent.Options
import Leasehold.Agent.StoreUrl
import Leasehold.Postgres.Session
import Leasehold.Store.DatabaseFile

/-! # Opening the store of the agent

Which store the options ask for, and what comes of opening it where no database server is around.
-/

namespace Leasehold.Agent

/-- The store that the options ask for. -/
inductive StorePlan where
  /-- A table inside the process, since leases are disabled. -/
  | processOnly
  /-- A server at this address, with a limit on every statement. -/
  | server (url : String) (tls : Postgres.TlsMode) (limit : Duration)
  | privateDatabase
  | databaseFile (path : String)
  deriving Repr, DecidableEq, Inhabited

namespace Options

/-- Time that a statement may take: half the grace window, so that one that hangs fails well before
    held leases are at risk. -/
def statementLimit (o : Options) : Duration := o.settings.grace.part 2

def plan (o : Options) : Except LeaseError StorePlan :=
  if !o.leasesEnabled then .ok .processOnly
  else
    match o.storeUrl with
    | none => .error (.invalidConfig "a store URL is required when leases are enabled")
    | some url => do
      match ← StoreUrl.parse url with
      | .postgres url => .ok (.server url o.tlsMode o.statementLimit)
      | .sqlite path => .ok (if path = ":memory:" then .privateDatabase else .databaseFile path)

end Options

/-- Opens a planned store where nobody answers on the network. -/
def StorePlan.realize (plan : StorePlan) (files : FileSystem := .usual) : Except LeaseError Backend :=
  match plan with
  | processOnly => .ok .freshMemory
  | privateDatabase => .ok .freshSqlite
  | databaseFile path => DatabaseFile.access path files
  | server url tls limit =>
    match (Postgres.Client.connect Postgres.nobody url tls limit ⟨(), []⟩).1 with
    | .error e => .error e
    | .ok _ => .error (Postgres.failed "connect" Postgres.serverError)

/-- Opens the store that the options ask for where nobody answers on the network. -/
def Options.openStore (o : Options) (files : FileSystem := .usual) : Except LeaseError Backend := do
  (← o.plan).realize files

/-- What can be seen of a store that has just been opened: its name, the number of rows that it
    lists, whether its table could be created, and the number of rows after that. -/
structure Inspection where
  label : String
  before : Except LeaseError Nat
  schema : Except LeaseError Unit
  after : Except LeaseError Nat

/-- Lists a store, creates its table and lists it again. -/
def inspect (b : Backend) : Inspection :=
  let (created, next) := b.perform 0 .ensureSchema
  { label := b.label
    before := b.listing.map List.length
    schema := created.map fun _ => ()
    after := next.listing.map List.length }

end Leasehold.Agent
