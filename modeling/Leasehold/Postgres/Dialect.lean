import Leasehold.Error

/-! # Engines that speak the PostgreSQL protocol -/

namespace Leasehold.Postgres

/-- Engines that can host the lease table. -/
inductive Dialect where
  | postgresql
  | cockroachdb
  deriving Repr, DecidableEq, Inhabited

/-- Whether a text contains another one. -/
def containsText (part : List Char) : List Char → Bool
  | [] => part.isEmpty
  | c :: r => part.isPrefixOf (c :: r) || containsText part r

namespace Dialect

/-- Identifies the engine from what the server tells about its version. -/
def ofVersion (version : String) : Except LeaseError Dialect :=
  if containsText "CockroachDB".toList version.toList then .ok .cockroachdb
  else if "PostgreSQL".toList.isPrefixOf version.toList then .ok .postgresql
  else .error (.unsupportedStore version)

def label : Dialect → String
  | postgresql => "postgresql"
  | cockroachdb => "cockroachdb"

/-- Name of the dialect in a description of the store. -/
def constructorName : Dialect → String
  | postgresql => "PostgreSql"
  | cockroachdb => "CockroachDb"

end Dialect

end Leasehold.Postgres
