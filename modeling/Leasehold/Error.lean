import Leasehold.Duration

/-! # Errors of the lease layer

Every way in which an operation can fail, with its wording, and which of them must keep a manager
from operating at all.
-/

namespace Leasehold

/-- Why an operation of the lease layer failed. -/
inductive LeaseError where
  /-- Local clock and store clock are further apart than the grace window. -/
  | clockSkew (skewMillis graceMillis : Int)
  /-- There is no store of this kind. -/
  | unsupportedStore (what : String)
  /-- This process already has an unreleased handle for the name. -/
  | conflict (name : String)
  /-- The store did not do what it was asked to. -/
  | store (what : String)
  /-- The settings cannot be used. -/
  | invalidConfig (what : String)
  | alreadyStarted
  | stopped
  deriving Repr, DecidableEq, Inhabited

namespace LeaseError

def message : LeaseError → String
  | clockSkew s g =>
      "This machine's time is not synchronized with the lease store (skew " ++ toString s
        ++ "ms, grace " ++ toString g ++ "ms)"
  | unsupportedStore what => "Unsupported lease store: " ++ what
  | conflict name => "A lease already exists for: " ++ name
  | store what => "Store error: " ++ what
  | invalidConfig what => "Invalid configuration: " ++ what
  | alreadyStarted => "Lease manager already started"
  | stopped => "Lease manager has been stopped"

/-- Whether a manager must refuse to operate after this error: a skewed clock and an unknown store
    both break the arithmetic on expirations. -/
def isStartupFatal : LeaseError → Bool
  | clockSkew _ _ => true
  | unsupportedStore _ => true
  | _ => false

end LeaseError

end Leasehold
