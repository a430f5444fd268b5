import SpecHarvest.HeaderExpr
import SpecHarvest.Json.Printer
import SpecHarvest.Json.Relaxed
import SpecHarvest.Source.Keyword
import SpecHarvest.TestCase
import SpecHarvest.Text.Find

/-!
# Request expressions

A test sends its request with `get`, `post` or the general `request`.

* `RequestExpr` holds the parts of such an expression as they are written, `RequestExpr.readers` are
  tried in their order.
* `Body.resolve?` gives the body that a body expression denotes: a quasi-literal is sent as compact
  JSON, and so is a string literal that holds JSON.
* `Request.parse?` is the request that a text states.
-/

namespace SpecHarvest

open Text Source Http

/-! ## Bodies -/

/-- What the first quasi-literal of a text holds, white space around it aside. -/
def quasiContent? (s : Text) : Option Text := do
  let (_, s) ← cut? quasiOpen s
  let (content, _) ← cut? quasiClose s
  return trim content

namespace Body

/-- Expressions of no body. -/
def isNone (s : Text) : Bool := s.isEmpty || s == "\"\"".toList || s == "mempty".toList

/-- What a string literal that is the whole text holds, as written. -/
def wholeLiteral? (s : Text) : Option Text :=
  match quoted? s with
  | some (raw, []) => some raw
  | _ => none

/-- The body of a text: JSON in its compact form, all else as it is. -/
def ofText (s : Text) : Text :=
  match Json.Value.parse? s with
  | some v => v.compact
  | none => s

/-- The body that an expression denotes, which may be no body. -/
def resolve? (s : Text) : Option (Option Text) :=
  let s := trim s
  if isNone s then some none
  else
    match quasiContent? s with
    | some content =>
      match Json.parseRelaxed content with
      | .ok v => some (some v.compact)
      | .error _ => none
    | none =>
      match wholeLiteral? s with
      | some raw =>
        let text := unescape raw
        some (if text.isEmpty then none else some (ofText text))
      | none => none

end Body

/-! ## The forms of requests -/

/-- A request expression, with its parts as they are written. -/
inductive RequestExpr where
  /-- `get "path"` -/
  | get (path : Text)
  /-- `post "path" body` -/
  | post (path body : Text)
  /-- `request method "path" headers body` -/
  | general (method path arguments : Text)
  deriving DecidableEq, Repr

namespace RequestExpr

/-- What follows a keyword and white space, at each place where the keyword stands alone. -/
def argumentsOf (word s : Text) : List Text := (afterKeyword word none s).filterMap blanks?

/-- An expression after white space, up to the end of the text. -/
def lastExpr? (s : Text) : Option Text :=
  (blanks? s).bind fun s => if allBlank s then none else some (trimEnd s)

/-- The first `get`. -/
def get? (s : Text) : Option RequestExpr :=
  (argumentsOf "get".toList s).findSome? fun s => do
    let (path, _) ← quoted? s
    return .get path

/-- The first `post`. -/
def post? (s : Text) : Option RequestExpr :=
  (argumentsOf "post".toList s).findSome? fun s => do
    let (path, s) ← quoted? s
    return .post path (← lastExpr? s)

/-- The first `request`. -/
def general? (s : Text) : Option RequestExpr :=
  (argumentsOf "request".toList s).findSome? fun s => do
    let (method, s) ← identifier? s
    let (path, s) ← quoted? (← blanks? s)
    return .general method path (← lastExpr? s)

/-- The readers of the forms, in the order in which they are tried. -/
def readers : List (Text → Option RequestExpr) := [get?, post?, general?]

/-- The request expression of a text. -/
def find? (s : Text) : Option RequestExpr := readers.findSome? (· s)

/-! ## Headers and body of a general request -/

/-- What a body after a bare header expression may start with, in the order in which it is looked
for. -/
def bodyStarts : List Text := [quasiOpen, "\"\"".toList, "mempty".toList, ['"']]

/-- The header expression and the body expression of a general request. A list or a parenthesised
expression ends at its closing bracket, and the parentheses are taken off; any other expression ends
where a body starts. -/
def splitArguments? (s : Text) : Option (Text × Text) :=
  let s := trim s
  match s with
  | '[' :: _ => (bracketed? '[' ']' s).map fun (inner, rest) => ('[' :: inner ++ [']'], trim rest)
  | '(' :: _ => (bracketed? '(' ')' s).map fun (inner, rest) => (inner, trim rest)
  | _ =>
    bodyStarts.findSome? fun start =>
      (cut? start s).map fun (front, rest) => (trim front, trim (start ++ rest))

/-- The request that an expression denotes. Headers that are not understood are left out; a method,
path or body that is not understood makes the expression unreadable. -/
def resolve? (bindings : Bindings) : RequestExpr → Option Request
  | .get path => some ⟨.get, unescape path, [], none⟩
  | .post path body => do return ⟨.post, unescape path, [], ← Body.resolve? body⟩
  | .general method path arguments => do
    let method ← Method.ofName? (Method.nameOf method)
    let (headers, body) ← splitArguments? arguments
    let headers := (HeaderExpr.resolveList? bindings headers).getD []
    return ⟨method, unescape path, headers, ← Body.resolve? body⟩

end RequestExpr

/-- The request that a text states. -/
def Request.parse? (bindings : Bindings) (s : Text) : Option Request :=
  (RequestExpr.find? (collapse s)).bind (RequestExpr.resolve? bindings)

end SpecHarvest
