import AddressExchange.Failure
import AddressExchange.Json.Value
import AddressExchange.Web.Http

/-!
# Refusals

What a host answers when it does not do what it was asked. Of an exchange that fails nobody learns
where it failed, and of inner troubles nobody learns anything.
-/

namespace AddressExchange

/-- Why somebody is not taken for an administrator. -/
inductive Unauthorized where
  /-- There are no administrators. -/
  | disabled
  | noToken
  | wrongToken
  deriving DecidableEq, Repr

/-- Why a request is refused. -/
inductive Refusal where
  | exchange
  | activationTime (failure : Failure)
  | unauthorized (reason : Unauthorized)
  | address (reason : BadAddress)
  | trouble
  deriving DecidableEq, Repr

namespace Refusal

/-- What is told about a failure. -/
def ofFailure : Failure → Refusal
  | .decryption | .versionMismatch _ _ | .malformed _ => exchange
  | .invalidAddress reason => address reason
  | _ => trouble

def status : Refusal → Web.Status
  | exchange | activationTime _ => .badRequest
  | unauthorized _ => .unauthorized
  | address _ => .unprocessable
  | trouble => .internalError

/-- The name of the kind of refusal. -/
def code : Refusal → String
  | exchange | activationTime _ => "BAD_REQUEST"
  | unauthorized _ => "UNAUTHORIZED"
  | address _ => "VALIDATION_ERROR"
  | trouble => "INTERNAL_ERROR"

def message : Refusal → String
  | exchange => "Request rejected"
  | activationTime failure => s!"Invalid activated_at: {failure.message}"
  | unauthorized .disabled => "Pool administration is disabled"
  | unauthorized .noToken => "Missing bearer token"
  | unauthorized .wrongToken => "Invalid bearer token"
  | address reason => (Failure.invalidAddress reason).message
  | trouble => "An internal error occurred"

def toJson (r : Refusal) : Json.Value :=
  .object [("error", .object [("code", .text r.code), ("message", .text r.message)])]

end Refusal

namespace Web.HttpAnswer

/-- An answer in JSON. -/
def json (status : Status) (v : Json.Value) : HttpAnswer :=
  { status, contentType := some "application/json", body := v.compact }

/-- An answer in words. -/
def words (status : Status) (s : String) : HttpAnswer :=
  { status, contentType := some "text/plain; charset=utf-8", body := Text.utf8 s }

/-- The answer of a refusal. -/
def refusal (r : Refusal) : HttpAnswer := json r.status r.toJson

end Web.HttpAnswer

end AddressExchange
