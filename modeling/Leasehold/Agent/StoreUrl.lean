import Leasehold.Error

/-! # Where the lease table is

The location of the store as given on the command line. A PostgreSQL address is kept whole and never
shown, since it may carry a password.
-/

namespace Leasehold

inductive StoreUrl where
  /-- Full connection address. -/
  | postgres (url : String)
  /-- Database file, or a private database in memory. -/
  | sqlite (path : String)
  deriving Repr, DecidableEq, Inhabited

namespace StoreUrl

/-- What follows `start`, if the text begins with it. -/
def after? (start : String) (text : List Char) : Option (List Char) :=
  if start.toList.isPrefixOf text then some (text.drop start.toList.length) else none

/-- The text before the first colon; all of it if there is none. -/
def scheme (text : List Char) : List Char := text.takeWhile (· ≠ ':')

/-- Classifies a location by its scheme. -/
def parse (url : String) : Except LeaseError StoreUrl :=
  let text := url.toList
  if (after? "postgres://" text).isSome || (after? "postgresql://" text).isSome then
    .ok (.postgres url)
  else
    match after? "sqlite:" text with
    | some rest =>
      let path := (after? "//" rest).getD rest
      if path.isEmpty then
        .error (.invalidConfig ("SQLite store URL has no path: " ++ url))
      else .ok (.sqlite (String.ofList path))
    | none =>
      .error (.unsupportedStore
        ("no lease store for URL scheme '" ++ String.ofList (scheme text) ++ "'"))

/-- What may be shown of a location. -/
def shown : StoreUrl → String
  | postgres _ => "postgres"
  | sqlite path => "sqlite (" ++ path ++ ")"

end StoreUrl

end Leasehold
