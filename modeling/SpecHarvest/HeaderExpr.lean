import SpecHarvest.Assoc
import SpecHarvest.Http.Header
import SpecHarvest.Source.Delimiter
import SpecHarvest.Source.Reader
import SpecHarvest.Text.Quoted

/-!
# Header expressions

The headers of a request are written as string tuples, as calls of helpers and as names of `let`
bindings.

* `HeaderExpr` is one such expression; `HeaderExpr.readers` are tried in their order.
* `resolve?` gives the headers of an expression. A name stands for the expression bound to it, which
  may be a name again; a name met a second time has no headers.
* `resolveList?` gives the headers of a bracketed list, or of a single expression.
-/

namespace SpecHarvest

open Text Source Http

/-- The `let` bindings in force: names and the expressions bound to them. -/
abbrev Bindings := List (Text × Text)

/-- A header expression. -/
inductive HeaderExpr where
  /-- `("Name", "Value")` -/
  | tuple (name value : Text)
  /-- `acceptHdrs "mime"` -/
  | accept (mime : Text)
  /-- `authHeaderJWT "token"` -/
  | bearer (token : Text)
  /-- `planHdr` -/
  | plan
  /-- `rangeHdrs $ ByteRangeFromTo from to` -/
  | rangeFromTo (first last : Nat)
  /-- `rangeHdrs $ ByteRangeFrom from` -/
  | rangeFrom (first : Nat)
  /-- `rangeHdrsWithCount $ ByteRangeFromTo from to` -/
  | rangeWithCount (first last : Nat)
  /-- The name of a binding. -/
  | binding (name : Text)
  deriving DecidableEq, Repr

namespace HeaderExpr

/-! ## The forms of expressions -/

/-- The end of an expression, where only white space may follow. -/
def atEnd (s : Text) : Option Unit := if allBlank s then some () else none

/-- A tuple of two string literals, neither of them empty. -/
def tuple? (s : Text) : Option HeaderExpr := do
  let s ← after? ['('] s
  let (name, s) ← nonemptyQuoted? (trimStart s)
  let s ← after? [','] (trimStart s)
  let (value, s) ← nonemptyQuoted? (trimStart s)
  let s ← after? [')'] (trimStart s)
  atEnd s
  return .tuple (unescape name) (unescape value)

/-- The argument of a helper that takes one string literal, not empty. -/
def stringArgument? (helper s : Text) : Option Text := do
  let s ← blanks? (← word? helper s)
  let (raw, s) ← nonemptyQuoted? s
  atEnd s
  return unescape raw

/-- An accept helper. -/
def accept? (s : Text) : Option HeaderExpr :=
  (stringArgument? "acceptHdrs".toList s).map .accept

/-- A token helper. -/
def bearer? (s : Text) : Option HeaderExpr :=
  (stringArgument? "authHeaderJWT".toList s).map .bearer

/-- The plan helper, with nothing around it. -/
def plan? (s : Text) : Option HeaderExpr := if s = "planHdr".toList then some .plan else none

/-- So many numbers, each after white space. -/
def naturals? : Nat → Text → Option (List Nat × Text)
  | 0, s => some ([], s)
  | n + 1, s => do
    let (k, s) ← natural? (← blanks? s)
    let (ks, s) ← naturals? n s
    return (k :: ks, s)

/-- The numbers in a call of a range helper, whose argument is in parentheses or after `$`. A
closing parenthesis is allowed after `$`, too, and needed after an opening one. -/
def rangeArguments? (helper constructor : Text) (arity : Nat) (s : Text) : Option (List Nat) := do
  let s ← blanks? (← word? helper s)
  let (parenthesised, s) ←
    match s with
    | '(' :: s => some (true, s)
    | '$' :: s => some (false, s)
    | _ => none
  let (ks, s) ← naturals? arity (← word? constructor (trimStart s))
  match after? [')'] (trimStart s) with
  | some s => atEnd s
  | none => if parenthesised then none else atEnd s
  return ks

/-- A range with both ends. -/
def rangeFromTo? (s : Text) : Option HeaderExpr :=
  match rangeArguments? "rangeHdrs".toList "ByteRangeFromTo".toList 2 s with
  | some [first, last] => some (.rangeFromTo first last)
  | _ => none

/-- A range without an end. -/
def rangeFrom? (s : Text) : Option HeaderExpr :=
  match rangeArguments? "rangeHdrs".toList "ByteRangeFrom".toList 1 s with
  | some [first] => some (.rangeFrom first)
  | _ => none

/-- A range with both ends and an exact count. -/
def rangeWithCount? (s : Text) : Option HeaderExpr :=
  match rangeArguments? "rangeHdrsWithCount".toList "ByteRangeFromTo".toList 2 s with
  | some [first, last] => some (.rangeWithCount first last)
  | _ => none

/-- An identifier alone. -/
def binding? (s : Text) : Option HeaderExpr :=
  if !s.isEmpty && s.all isIdentChar then some (.binding s) else none

/-- The readers of the forms, in the order in which they are tried. -/
def readers : List (Text → Option HeaderExpr) :=
  [tuple?, accept?, bearer?, plan?, rangeFromTo?, rangeFrom?, rangeWithCount?, binding?]

/-- The expression that a text, white space around it aside, is written as. -/
def parse? (s : Text) : Option HeaderExpr := readers.findSome? (· (trim s))

/-! ## The headers of expressions -/

/-- The header that gives the unit of ranges. -/
def rangeUnit : Header := Header.of "Range-Unit" "items"

/-- The headers of an expression, or the name that must be looked up. -/
def headers : HeaderExpr → List Header ⊕ Text
  | .tuple name value => .inl [⟨name, value⟩]
  | .accept mime => .inl [⟨"Accept".toList, mime⟩]
  | .bearer token => .inl [⟨"Authorization".toList, "Bearer ".toList ++ token⟩]
  | .plan => .inl [Header.of "Accept" "application/vnd.pgrst.plan+json"]
  | .rangeFromTo first last =>
    .inl [rangeUnit, ⟨"Range".toList, ofNat first ++ '-' :: ofNat last⟩]
  | .rangeFrom first => .inl [rangeUnit, ⟨"Range".toList, ofNat first ++ ['-']⟩]
  | .rangeWithCount first last =>
    .inl [Header.of "Prefer" "count=exact", rangeUnit,
      ⟨"Range".toList, ofNat first ++ '-' :: ofNat last⟩]
  | .binding name => .inr name

/-- The headers of an expression under bindings. A binding is taken out of the table when it is
followed, so a chain that comes back to a name ends without headers. -/
def resolve? (bindings : Bindings) (s : Text) : Option (List Header) :=
  match parse? s with
  | none => none
  | some e =>
    match e.headers with
    | .inl hs => some hs
    | .inr name =>
      match _h : Assoc.get? name bindings with
      | none => none
      | some bound => resolve? (Assoc.erase name bindings) bound
termination_by bindings.length
decreasing_by exact Assoc.length_erase_lt _h

/-- The headers of a list of expressions, or of one expression without brackets. All of them must
be understood. -/
def resolveList? (bindings : Bindings) (s : Text) : Option (List Header) :=
  match trim s with
  | '[' :: rest => do
    let inner ← before? [']'] rest
    let hss ← (topLevel ',' (trim inner)).mapM (resolve? bindings)
    return hss.flatten
  | s => resolve? bindings s

end HeaderExpr

end SpecHarvest
