import Leasehold.Postgres.Address
import Leasehold.Postgres.Server
import Leasehold.Postgres.TlsMode

/-! # The lease table on a server

A client that holds one connection. A connection that is known to be closed, or on which a statement
went without an answer for too long, is replaced before the next statement; the failed call itself
is not repeated.

The other end of the network is a parameter, so that a statement about the client can be made for
every behaviour of servers.
-/

namespace Leasehold.Postgres

/-- How a server greets a new connection. -/
inductive Greeting where
  | welcomed
  /-- The server reports an error. -/
  | refused
  | closed
  | silent
  deriving Repr, DecidableEq, Inhabited

/-- How a server answers the question whether a connection may be encrypted. -/
inductive Encryption where
  | declined
  /-- The server agrees, and both sides settle on a key. -/
  | established
  /-- The server agrees, but nothing comes of it. -/
  | broken
  | closed
  | silent
  deriving Repr, DecidableEq, Inhabited

/-- The other end of the network, with states in `σ`. -/
structure Peer (σ : Type) where
  /-- Accepts a connection and gives it a number, or does not. -/
  accept : σ → Option Nat × σ
  /-- Answers the question whether a connection may be encrypted. -/
  encrypt : Nat → σ → Encryption × σ
  /-- Answers the startup message on a connection. -/
  greet : Nat → σ → Greeting × σ
  /-- Answers a statement on a connection. -/
  run : Nat → Statement → σ → Outcome × σ

/-- What a client sends. -/
inductive Message where
  /-- The question whether the connection may be encrypted. -/
  | encryptionRequest
  | startup
  | statement (s : Statement)
  deriving Repr, DecidableEq, Inhabited

def Message.text : Message → String
  | encryptionRequest => "SSLRequest"
  | startup => "connect"
  | statement s => s.sql

/-- The other end of the network and everything that has been sent to it, by connection, the latest
    first. -/
structure Line (σ : Type) where
  peer : σ
  sent : List (Nat × Message)

namespace Line

variable {σ : Type}

/-- Notes a message that goes out. -/
def send (l : Line σ) (connection : Nat) (m : Message) : Line σ :=
  { l with sent := (connection, m) :: l.sent }

end Line

/-- The failure of an activity, for a reason that the connection gives. -/
def failed (activity reason : String) : LeaseError :=
  .store ("PostgreSQL " ++ activity ++ " failed: " ++ reason)

def timedOut (activity : String) (limit : Duration) : LeaseError :=
  .store ("PostgreSQL " ++ activity ++ " timed out after " ++ limit.text)

def AddressFault.reason : AddressFault → String
  | unreadable => "invalid connection string"
  | inconsistent => "invalid configuration"

def serverError : String := "db error"
def connectionClosed : String := "connection closed"
def wrongRowCount : String := "query returned an unexpected number of rows"
def unreadableColumn (column : Nat) : String := "error deserializing column " ++ toString column

def handshakeFailed : String := "error performing TLS handshake"
def communicationFailed : String := "error communicating with the server"

/-- The store on a server, once it has been opened. -/
structure Client where
  url : String
  tls : TlsMode
  dialect : Dialect
  /-- Longest time that connecting and each statement may take. -/
  limit : Duration
  current : Nat
  /-- The connection in use is known to be closed. -/
  closed : Bool
  /-- A statement on the connection in use went without an answer. -/
  stale : Bool
  deriving Repr, DecidableEq, Inhabited

variable {σ : Type}

/-- Whether a client asks for encryption: not where the address forbids it, and where the address leaves
    it open only if the client can encrypt. -/
def asksToEncrypt (ssl : SslWish) (tls : TlsMode) : Bool :=
  ssl = .require || (ssl = .prefer && tls ≠ .disable)

/-- Settles whether a connection is encrypted. It goes on in plain text if the server declines, unless
    the address insists; a client that cannot encrypt fails if the server agrees. -/
def negotiate (p : Peer σ) (ssl : SslWish) (tls : TlsMode) (limit : Duration) (connection : Nat)
    (l : Line σ) : Except LeaseError Unit × Line σ :=
  if asksToEncrypt ssl tls then
    let l := l.send connection .encryptionRequest
    let (answer, peer) := p.encrypt connection l.peer
    let l := { l with peer }
    match answer with
    | .declined =>
      (if ssl = .require then .error (failed "connect" handshakeFailed) else .ok (), l)
    | .established =>
      (if tls = .disable then .error (failed "connect" handshakeFailed) else .ok (), l)
    | .broken => (.error (failed "connect" handshakeFailed), l)
    | .closed => (.error (failed "connect" communicationFailed), l)
    | .silent => (.error (timedOut "connect" limit), l)
  else (.ok (), l)

/-- Opens a connection. With no time at all to do so, nothing is sent. -/
def openConnection (p : Peer σ) (url : String) (tls : TlsMode) (limit : Duration) (l : Line σ) :
    Except LeaseError Nat × Line σ :=
  match Address.parse url with
  | .error fault => (.error (failed "connect" fault.reason), l)
  | .ok address =>
    if limit.nanos = 0 then (.error (timedOut "connect" limit), l)
    else
      let (number, peer) := p.accept l.peer
      let l := { l with peer }
      match number with
      | none => (.error (failed "connect" "error connecting to server"), l)
      | some n =>
        match negotiate p address.ssl tls limit n l with
        | (.error e, l) => (.error e, l)
        | (.ok (), l) =>
          let l := l.send n .startup
          let (greeting, peer) := p.greet n l.peer
          let l := { l with peer }
          match greeting with
          | .welcomed => (.ok n, l)
          | .refused => (.error (failed "connect" serverError), l)
          | .closed => (.error (failed "connect" connectionClosed), l)
          | .silent => (.error (timedOut "connect" limit), l)

/-- The first value of the only row of a result. -/
def Result.single : Result → Except String Cell
  | .rows [cell :: _] => .ok cell
  | .rows [[]] => .error (unreadableColumn 0)
  | _ => .error wrongRowCount

def Cell.toText (column : Nat) : Cell → Except String String
  | .text s => .ok s
  | _ => .error (unreadableColumn column)

def Cell.toInteger (column : Nat) : Cell → Except String Int
  | .integer n => .ok n
  | _ => .error (unreadableColumn column)

/-- The only value of a result, which is a text. -/
def Result.singleText (r : Result) : Except String String := do (← r.single).toText 0

/-- The only value of a result, which is a number. -/
def Result.singleInteger (r : Result) : Except String Int := do (← r.single).toInteger 0

def Result.rowList : Result → List (List Cell)
  | .rows list => list
  | .touched _ => []

def Result.rowCount : Result → Nat
  | .touched n => n
  | .rows list => list.length

/-- The first values of all rows, which are texts. -/
def Result.texts (r : Result) : Except String (List String) :=
  r.rowList.mapM fun row => (row.head?.getD Cell.unreadable).toText 0

/-- A row of the lease table. -/
def recordOfCells (row : List Cell) : Except String Record := do
  let name ← (row[0]?.getD Cell.unreadable).toText 0
  let owner ← (row[1]?.getD Cell.unreadable).toText 1
  let expiration ← (row[2]?.getD Cell.unreadable).toInteger 2
  .ok ⟨name, owner, expiration⟩

/-- The rows of the lease table. -/
def Result.records (r : Result) : Except String (List Record) := r.rowList.mapM recordOfCells

namespace Client

/-- Connects and identifies the engine. -/
def connect (p : Peer σ) (url : String) (tls : TlsMode) (limit : Duration) (l : Line σ) :
    Except LeaseError Client × Line σ :=
  match openConnection p url tls limit l with
  | (.error e, l) => (.error e, l)
  | (.ok n, l) =>
    let l := l.send n (.statement .version)
    let (outcome, peer) := p.run n .version l.peer
    let l := { l with peer }
    let activity := Statement.version.activity
    match outcome with
    | .silent => (.error (timedOut activity limit), l)
    | .refused => (.error (failed activity serverError), l)
    | .closed => (.error (failed activity connectionClosed), l)
    | .answered r =>
      match r.singleText with
      | .error reason => (.error (failed activity reason), l)
      | .ok version =>
        match Dialect.ofVersion version with
        | .error e => (.error e, l)
        | .ok dialect => (.ok ⟨url, tls, dialect, limit, n, false, false⟩, l)

/-- Replaces the connection if it is closed or stale. A failed attempt changes nothing. -/
def refreshConnection (p : Peer σ) (c : Client) (l : Line σ) : Except LeaseError Client × Line σ :=
  if c.closed || c.stale then
    match openConnection p c.url c.tls c.limit l with
    | (.error e, l) => (.error e, l)
    | (.ok n, l) => (.ok { c with current := n, closed := false, stale := false }, l)
  else (.ok c, l)

/-- Runs one statement and reads its result. -/
def run {α : Type} (p : Peer σ) (c : Client) (st : Statement) (read : Result → Except String α)
    (l : Line σ) : Except LeaseError α × Client × Line σ :=
  match c.refreshConnection p l with
  | (.error e, l) => (.error e, c, l)
  | (.ok c, l) =>
    let l := l.send c.current (.statement st)
    let (outcome, peer) := p.run c.current st l.peer
    let l := { l with peer }
    match outcome with
    | .silent => (.error (timedOut st.activity c.limit), { c with stale := true }, l)
    | .refused => (.error (failed st.activity serverError), c, l)
    | .closed => (.error (failed st.activity connectionClosed), { c with closed := true }, l)
    | .answered r =>
      match read r with
      | .error reason => (.error (failed st.activity reason), c, l)
      | .ok v => (.ok v, c, l)

/-- The other way to ask for the server's clock. -/
def otherWay : Dialect → Dialect
  | .postgresql => .cockroachdb
  | .cockroachdb => .postgresql

/-- Asks for the server's clock, first in the way of its own engine and then in the other one. -/
def referenceTime (p : Peer σ) (c : Client) (l : Line σ) :
    Except LeaseError Int × Client × Line σ :=
  match c.run p (.clock c.dialect) Result.singleInteger l with
  | (.ok now, c, l) => (.ok now, c, l)
  | (.error _, c, l) => c.run p (.clock (otherWay c.dialect)) Result.singleInteger l

/-- Answers a request of the lease layer. -/
def perform (p : Peer σ) (c : Client) (r : Request) (l : Line σ) :
    Except LeaseError Reply × Client × Line σ :=
  match r with
  | .referenceTime =>
    match c.referenceTime p l with
    | (.ok now, c, l) => (.ok (.time now), c, l)
    | (.error e, c, l) => (.error e, c, l)
  | .ensureSchema => c.run p .createTable (fun _ => .ok .done) l
  | .dropSchema => c.run p .dropTable (fun _ => .ok .done) l
  | .deleteExpired now => c.run p (.deleteExpired now) (fun r => .ok (.count r.rowCount)) l
  | .refreshOwned owner expiration =>
      c.run p (.refresh owner expiration) (fun r => .ok (.count r.rowCount)) l
  | .claimAbsent names owner expiration =>
      c.run p (.claim names owner expiration) (fun _ => .ok .done) l
  | .selectOwned owner => c.run p (.selectOwned owner) (fun r => r.texts.map .names) l
  | .deleteOwned name owner =>
      c.run p (.deleteOwned name owner) (fun r => .ok (.deleted (0 < r.rowCount))) l
  | .listAll => c.run p .list (fun r => r.records.map .records) l

/-- The client learns between two calls that the connection in use has been closed. -/
def noticeClosed (c : Client) : Client := { c with closed := true }

/-- What may be told about the store; the address stays out of it. -/
def description (c : Client) : String :=
  "PostgresStore \x7b dialect: " ++ c.dialect.constructorName ++ ", tls: " ++ c.tls.constructorName
    ++ ", statement_timeout: " ++ c.limit.text ++ ", .. \x7d"

end Client

/-- Time that statements may take when nothing else is said. -/
def standardLimit : Duration := Duration.ofSeconds 10

end Leasehold.Postgres
