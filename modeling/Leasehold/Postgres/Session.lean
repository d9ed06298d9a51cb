import Leasehold.Postgres.Client
import Leasehold.Store.Direct

/-! # A store and its server, side by side

One client with one ideal server: calls on the client, and what is done to the server between them.
-/

namespace Leasehold.Postgres

namespace Server

/-- Accepts a connection under the next number. -/
def accept (s : Server) : Option Nat × Server :=
  (some (s.accepted + 1), { s with accepted := s.accepted + 1 })

/-- Answers the startup message, with the fault that is due for it. -/
def greet (s : Server) : Greeting × Server :=
  let (kind, faults) := takeFault .connect s.faults
  let s := { s with faults }
  match kind with
  | some .error => (.refused, s)
  | some .close => (.closed, s)
  | some .after => (.closed, s)
  | some .hang => (.silent, s)
  | _ => (.welcomed, s)

/-- The server as the other end of the network. -/
def asPeer : Peer Server where
  accept := accept
  encrypt _ s := (.declined, s)
  greet _ s := s.greet
  run _ st s := s.run st

end Server

/-- No server is listening. -/
def nobody : Peer Unit where
  accept s := (none, s)
  encrypt _ s := (.closed, s)
  greet _ s := (.closed, s)
  run _ _ s := (.closed, s)

/-- One thing that is done in a session. -/
inductive SessionStep where
  | call (c : DirectCall)
  /-- The server gets another fault, after those that it has. -/
  | addFault (f : Fault)
  | clearFaults
  | setTime (now : Int)
  /-- The server closes every connection, and the client notices. -/
  | kill
  deriving Repr, DecidableEq, Inhabited

structure Session where
  client : Client
  line : Line Server

/-- What came of a step: the answer, what was sent, and the table of the server. -/
structure SessionAnswer where
  answer : DirectAnswer
  sent : List (Nat × String)
  table : Option (List Record)

namespace Line

/-- Takes what has been sent off the line, in order. -/
def takeSent {σ : Type} (l : Line σ) : List (Nat × String) × Line σ :=
  (l.sent.reverse.map fun (n, m) => (n, m.text), { l with sent := [] })

end Line

namespace Session

/-- Opens the store at a fresh line to the server. -/
def start (server : Server) (url : String) (tls : TlsMode) (limit : Duration) :
    List (Nat × String) × Except LeaseError Session :=
  let (client, line) := Client.connect Server.asPeer url tls limit ⟨server, []⟩
  let (sent, line) := line.takeSent
  (sent, client.map fun client => ⟨client, line⟩)

def stepAnswer (s : Session) : SessionStep → DirectAnswer × Session
  | .call .label => (.label s.client.dialect.label, s)
  | .call (.request r) =>
    match s.client.perform Server.asPeer r s.line with
    | (.ok reply, client, line) => (.reply reply, ⟨client, line⟩)
    | (.error e, client, line) => (.failed e, ⟨client, line⟩)
  | .call (.put _) => (.memoryOnly, s)
  | .call (.get _) => (.memoryOnly, s)
  | .addFault f =>
    let server := s.line.peer
    (.reply .done,
      { s with line := { s.line with peer := { server with faults := server.faults ++ [f] } } })
  | .clearFaults =>
    (.reply .done, { s with line := { s.line with peer := { s.line.peer with faults := [] } } })
  | .setTime now =>
    (.reply .done, { s with line := { s.line with peer := { s.line.peer with now } } })
  | .kill => (.reply .done, { s with client := s.client.noticeClosed })

/-- Does one step and reports what could be seen of it. -/
def step (s : Session) (st : SessionStep) : SessionAnswer × Session :=
  let (answer, s) := s.stepAnswer st
  let (sent, line) := s.line.takeSent
  let table := line.peer.table.map fun t => sortedRecords t.rows
  (⟨answer, sent, table⟩, { s with line })

def runAll (s : Session) : List SessionStep → List SessionAnswer
  | [] => []
  | st :: rest =>
    let (a, s) := s.step st
    a :: s.runAll rest

end Session

end Leasehold.Postgres
