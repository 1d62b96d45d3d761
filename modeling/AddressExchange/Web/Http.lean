import AddressExchange.Text.Literal
import AddressExchange.Web.MediaType
import AddressExchange.Web.Status

/-!
# Requests and answers of the web

What a host is asked and what it answers, as far as the program looks at it or decides it.
-/

namespace AddressExchange.Web

/-- A request. -/
structure HttpRequest where
  method : String
  /-- The path, and behind a question mark the query. -/
  target : String
  /-- Names and values; names in lower case, several of one name in their order. -/
  headers : List (String × String)
  body : List UInt8
  deriving DecidableEq, Repr

namespace HttpRequest

/-- A request with its header names brought to lower case. -/
def make (method target : String) (headers : List (String × String)) (body : List UInt8) :
    HttpRequest :=
  ⟨method, target, headers.map fun (name, value) => (name.toLower, value), body⟩

/-- The path alone. -/
def path (r : HttpRequest) : String :=
  String.ofList (r.target.toList.takeWhile fun c => c ≠ '?' && c ≠ '#')

/-- The value of the first header of a name, if it is printable ASCII. -/
def header? (r : HttpRequest) (name : String) : Option String :=
  (r.headers.lookup name).filter fun value =>
    value.toList.all fun c => c = '\t' || (' ' ≤ c && c < '\x7f')

/-- The length of the body as the headers tell it. -/
def declaredLength (r : HttpRequest) : Option Nat := (r.header? "content-length").bind Text.nat64?

/-- Is the body told to be JSON? -/
def isJson (r : HttpRequest) : Bool :=
  ((r.header? "content-type").bind MediaType.parse).any MediaType.isJson

end HttpRequest

/-- An answer. -/
structure HttpAnswer where
  status : Status
  contentType : Option String := none
  /-- The methods that the path takes, where the request had none of them. -/
  allow : Option String := none
  /-- The sites that may read the answer. -/
  allowOrigin : Option String := none
  body : List UInt8 := []
  deriving DecidableEq, Repr

end AddressExchange.Web
