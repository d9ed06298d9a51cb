import Leasehold.Store.Backend

/-! # Opening a database file

A database file is opened or created where a file can be: not at the path of a directory, and only
in a directory that exists and takes new files. The empty path and the name `:memory:` stand for
private databases. Which directories there are is up to the file system.
-/

namespace Leasehold

/-- The directories of a system, by their paths without doubled and trailing slashes. -/
structure FileSystem where
  /-- Directories in which a file can be created. -/
  isOpen : String → Bool
  /-- Directories that take no files. -/
  isClosed : String → Bool

namespace FileSystem

def isDirectory (files : FileSystem) (path : String) : Bool := files.isOpen path || files.isClosed path

/-- The directories that systems usually have. -/
def usual : FileSystem where
  isOpen := [".", "..", "/", "/tmp", "/var", "/var/tmp", "/etc", "/usr", "/home", "/root", "/dev",
    "/dev/shm", "/opt", "/mnt", "/media", "/srv", "/run"].contains
  isClosed := ["/proc", "/sys", "/proc/self", "/proc/sys"].contains

end FileSystem

namespace DatabaseFile

/-- The parts of a path between its slashes, leaving out those that lead nowhere else. -/
def segments : List Char → List (List Char)
  | [] => [[]]
  | c :: r =>
    if c = '/' then [] :: segments r
    else
      match segments r with
      | [] => [[c]]
      | part :: parts => (c :: part) :: parts

/-- A path without doubled and trailing slashes. -/
def plain (path : String) : String :=
  let parts := (segments path.toList).filter fun p => !p.isEmpty
  let body := String.ofList (['/'].intercalate parts)
  if path.toList.head? = some '/' then "/" ++ body else body

/-- The directory that a path without doubled slashes lies in. -/
def parent (path : String) : String :=
  let parts := (segments path.toList).dropLast
  if parts.isEmpty then "."
  else
    let body := String.ofList (['/'].intercalate parts)
    if body.isEmpty then "/" else body

/-- Whether a database can be opened at a path. -/
def canOpen (files : FileSystem) (path : String) : Bool :=
  path = "" || path = ":memory:"
    || (!files.isDirectory (plain path) && path.toList.getLast? ≠ some '/'
        && files.isOpen (parent (plain path)))

/-- Number of bytes before the first zero character, if there is one. -/
def zeroPosition? (path : List Char) : Option Nat :=
  if path.contains '\x00' then
    some ((path.takeWhile (· ≠ '\x00')).foldl (fun n c => n + c.utf8Size) 0)
  else none

/-- Opens a database file, which is found empty. -/
def access (path : String) (files : FileSystem := .usual) : Except LeaseError Backend :=
  match zeroPosition? path.toList with
  | some n =>
    .error (.store ("Failed to open SQLite database " ++ path
      ++ ": nul byte found in provided data at position: " ++ toString n))
  | none => if canOpen files path then .ok .freshSqlite else .error (SqliteDatabase.cannotOpen path)

end DatabaseFile

end Leasehold
