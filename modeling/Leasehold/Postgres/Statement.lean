import Leasehold.Postgres.Dialect
import Leasehold.Store.Table

/-! # Statements on the lease table

What is sent to a server that speaks the PostgreSQL protocol, and what comes back as rows.
-/

namespace Leasehold.Postgres

/-- A statement with its parameters. -/
inductive Statement where
  | version
  /-- The server's clock, asked in the way of one of the engines. -/
  | clock (way : Dialect)
  | createTable
  | dropTable
  | deleteExpired (now : Int)
  | refresh (owner : String) (expiration : Int)
  | claim (names : List String) (owner : String) (expiration : Int)
  | selectOwned (owner : String)
  | deleteOwned (name owner : String)
  | list
  deriving Repr, DecidableEq, Inhabited

namespace Statement

/-- The text of a statement as it is sent. -/
def sql : Statement → String
  | version => "SELECT version()"
  | clock .postgresql => "SELECT (extract(epoch from now()) * 1000)::BIGINT"
  | clock .cockroachdb => "SELECT (now()::DECIMAL * 1000)::BIGINT"
  | createTable =>
      "CREATE TABLE IF NOT EXISTS leases (lease VARCHAR PRIMARY KEY, owner VARCHAR, expiration BIGINT)"
  | dropTable => "DROP TABLE IF EXISTS leases"
  | deleteExpired _ => "DELETE FROM leases WHERE $1 > expiration"
  | refresh _ _ => "UPDATE leases SET expiration = $1 WHERE owner = $2"
  | claim _ _ _ =>
      "INSERT INTO leases (lease, owner, expiration) SELECT name, $2, $3 FROM unnest($1::VARCHAR[]) AS name ON CONFLICT (lease) DO NOTHING"
  | selectOwned _ => "SELECT lease FROM leases WHERE owner = $1"
  | deleteOwned _ _ => "DELETE FROM leases WHERE lease = $1 AND owner = $2"
  | list => "SELECT lease, owner, expiration FROM leases"

/-- What a statement is called in a failure. -/
def activity : Statement → String
  | version => "read server version"
  | clock _ => "read clock"
  | createTable => "create table"
  | dropTable => "drop table"
  | deleteExpired _ => "delete expired"
  | refresh _ _ => "refresh"
  | claim _ _ _ => "claim"
  | selectOwned _ => "select owned"
  | deleteOwned _ _ => "delete owned"
  | list => "list"

end Statement

inductive Cell where
  | text (s : String)
  | integer (n : Int)
  /-- A value that cannot be read as what it should be. -/
  | unreadable
  deriving Repr, DecidableEq, Inhabited

/-- The answer of a server to a statement that succeeded. -/
inductive Result where
  /-- How many rows were touched. -/
  | touched (n : Nat)
  | rows (list : List (List Cell))
  deriving Repr, DecidableEq, Inhabited

/-- How a statement ends for the client that sent it. -/
inductive Outcome where
  | answered (r : Result)
  /-- The server reports an error and the connection goes on. -/
  | refused
  /-- The connection closes instead of an answer. -/
  | closed
  /-- No answer ever comes. -/
  | silent
  deriving Repr, DecidableEq, Inhabited

end Leasehold.Postgres
