import SpecHarvest.TestCase
import SpecHarvest.Text.Find

/-!
# Requests and responses on the wire

`Request.toWire` makes the request of a test ready to be sent: the path starts with a slash and
holds no number sign, a body goes along only with a method that takes one, and a body without a
content type is declared to be JSON.
-/

namespace SpecHarvest

open Text Http

/-- A response. -/
structure Response where
  status : Nat
  headers : List Header
  body : Text
  deriving DecidableEq, Repr

/-- A path as it is sent: a number sign, which would end it, is encoded, and a slash leads. -/
def normalizePath (path : Text) : Text :=
  match replaceChar '#' "%23".toList path with
  | '/' :: s => '/' :: s
  | s => '/' :: s

/-- The header that declares JSON. -/
def jsonContentType : Header := Header.of "Content-Type" "application/json"

/-- Whether headers have a content type. -/
def declaresContentType (headers : List Header) : Bool :=
  headers.any fun h => sameIgnoringCase h.name jsonContentType.name

/-- The request as it is sent. -/
def Request.toWire (r : Request) : Request :=
  let body := if r.method.sendsBody then r.body else none
  { method := r.method
    path := normalizePath r.path
    headers :=
      if body.isSome && !declaresContentType r.headers then r.headers ++ [jsonContentType]
      else r.headers
    body := body }

end SpecHarvest
