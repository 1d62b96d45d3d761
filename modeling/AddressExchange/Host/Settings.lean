import AddressExchange.Pool
import AddressExchange.Text.Blank
import AddressExchange.Text.Literal

/-!
# Settings of a Matcher

What a Matcher's host is told by its environment: named texts, each with a fallback.
-/

namespace AddressExchange

/-- Named texts around a program; of two with one name the first counts. -/
abbrev Environment := List (String × String)

/-- How a Matcher's host runs. -/
structure Settings where
  /-- The file of the Matcher's secret key. -/
  secretKeyFile : Option String := none
  /-- The file that the pool is kept in. -/
  poolFile : Option String := none
  cohortSize : Nat := Protocol.defaultCohortSize
  rotationSeconds : Nat := Protocol.defaultRotationSeconds
  /-- The most bytes of a request's body. -/
  bodyLimit : Nat := 65536
  /-- What administrators show; without it nobody is one. -/
  adminToken : Option String := none
  deriving DecidableEq, Repr

namespace Settings

def secretKeyFileName : String := "BRIT_MATCHER_SECRET_KEY_FILE"
def poolFileName : String := "BRIT_POOL_FILE"
def cohortSizeName : String := "BRIT_COHORT_SIZE"
def rotationSecondsName : String := "BRIT_ROTATION_SECS"
def bodyLimitName : String := "BRIT_MAX_BODY_BYTES"
def adminTokenName : String := "BRIT_ADMIN_TOKEN"

/-- A number of the environment; blanks around it do not count, and what is no number is ignored. -/
def number (env : Environment) (name : String) (fallback : Nat) : Nat :=
  ((env.lookup name).bind fun s => Text.nat64? (Text.trim s)).getD fallback

/-- The settings that an environment holds. A blank token is none. -/
def ofEnvironment (env : Environment) : Settings :=
  let s : Settings := {}
  { secretKeyFile := env.lookup secretKeyFileName
    poolFile := env.lookup poolFileName
    cohortSize := number env cohortSizeName s.cohortSize
    rotationSeconds := number env rotationSecondsName s.rotationSeconds
    bodyLimit := number env bodyLimitName s.bodyLimit
    adminToken := ((env.lookup adminTokenName).map Text.trim).filter (· ≠ "") }

/-- The pool that the settings describe. -/
def pool (s : Settings) : PoolConfig := ⟨s.cohortSize, s.rotationSeconds * 1000000000⟩

end Settings

end AddressExchange
