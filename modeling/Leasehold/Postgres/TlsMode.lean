import Leasehold.Error
import Leasehold.Text.Lowercase

/-! # Encryption of the store connection -/

namespace Leasehold.Postgres

/-- Whether the connection to the store is encrypted, and what is checked. -/
inductive TlsMode where
  | disable
  /-- Encrypt, but accept any certificate. -/
  | require
  /-- Encrypt and verify certificate chain and host name. -/
  | verifyFull
  deriving Repr, DecidableEq, Inhabited

namespace TlsMode

def name : TlsMode → String
  | disable => "disable"
  | require => "require"
  | verifyFull => "verify-full"

/-- Name of the mode in a description of the store. -/
def constructorName : TlsMode → String
  | disable => "Disable"
  | require => "Require"
  | verifyFull => "VerifyFull"

/-- The mode used when none is asked for. -/
def standard : TlsMode := .disable

/-- Reads a mode by its name in any case. -/
def parse (text : String) : Except LeaseError TlsMode :=
  let lower := Text.lowercase text
  if lower = "disable" then .ok .disable
  else if lower = "require" then .ok .require
  else if lower = "verify-full" then .ok .verifyFull
  else .error (.invalidConfig
    ("unknown TLS mode '" ++ lower ++ "' (expected disable, require or verify-full)"))

end TlsMode

end Leasehold.Postgres
