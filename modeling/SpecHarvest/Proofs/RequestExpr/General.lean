import SpecHarvest.Proofs.HeaderExpr.Written
import SpecHarvest.Proofs.Http.Method
import SpecHarvest.Proofs.RequestExpr.Literal

/-!
# General requests

`request method "path" headers body` with headers that have an end of their own, a list or an
expression in parentheses.

* `find?_generalText`: where nothing is read as a `get` or a `post`, the request is found with its
  parts.
* `splitArguments?_of_delimited`: the headers end at their closing bracket.
* `parse?_generalText`: so the request is the one that is written.
-/

namespace SpecHarvest.RequestExpr

open Text Source Http

/-- A general request: its method, what the literal of its path holds, and its arguments. -/
def generalText (method path arguments : Text) : Text :=
  "request ".toList ++ (method ++ ' ' :: '"' :: (path ++ '"' :: ' ' :: arguments))

/-- A general request has the headers and the body of its arguments. -/
def argumentsText (headers body : Text) : Text := headers ++ ' ' :: body

/-! ## Finding the request -/

variable {m p a : Text} {method : Method}

theorem general_after?_generalText (hm : (m, method) ∈ Method.aliases) (hp : Raw p)
    (ha : allBlank a = false) :
    Form.general.after? (' ' :: (m ++ ' ' :: '"' :: (p ++ '"' :: ' ' :: a))) =
      some (.general m p (trim a)) := by
  obtain ⟨hne, hident⟩ := Method.all_isIdentChar_of_mem_aliases hm
  have hspace {s : Text} (hs : trimStart s = s) : blanks? (' ' :: s) = some s :=
    blanks?_space ⟨[' '], by decide⟩ hs
  have hid : identifier? (m ++ ' ' :: '"' :: (p ++ '"' :: ' ' :: a)) =
      some (m, ' ' :: '"' :: (p ++ '"' :: ' ' :: a)) :=
    identifier?_eq_some_iff.2 ⟨rfl, hne, hident, rfl⟩
  have hq : quoted? ('"' :: (p ++ '"' :: ' ' :: a)) = some (p, ' ' :: a) := hp.quoted? _
  have hlast : lastExpr? (' ' :: a) = some (trim a) :=
    lastExpr?_of_blank (by decide) ha
  simp [Form.after?, hspace (trimStart_word hne hident _), hid,
    hspace (trimStart_cons_of_not_blank (show isBlank '"' = false by decide) _), hq, hlast]

/-- **A general request is found** unless something is read as a `get` or a `post`. -/
theorem find?_generalText (hm : (m, method) ∈ Method.aliases) (hp : Raw p)
    (ha : allBlank a = false) (hget : get? (generalText m p a) = none)
    (hpost : post? (generalText m p a) = none) :
    find? (generalText m p a) = some (.general m p (trim a)) := by
  rw [get?_eq_search?] at hget
  rw [post?_eq_search?] at hpost
  rw [find?_eq_or, hget, hpost, Option.none_or, Option.none_or]
  refine findSome?_afterKeyword_eq_some_iff.2 ⟨[], _, ⟨rfl, rfl, rfl⟩,
    general_after?_generalText hm hp ha, fun front tail _ hlt => ?_⟩
  exact absurd hlt (Nat.not_lt_zero _)

/-! ## Dividing the arguments -/

open HeaderExpr in
/-- **Headers with an end of their own** are divided from the body there. -/
theorem splitArguments?_of_delimited {h : Text} {es : List HeaderExpr} (hd : Delimited h es)
    (r : Text) : ∃ headers, splitArguments? (h ++ r) = some (headers, trim r) ∧
      ∀ bindings, resolveList? bindings headers = some (es.flatMap ownHeaders) := by
  have hsplit {b : Char × Char} {inner : Text} (hb : b ∈ brackets) (hi : Nested none inner) :
      trim (b.1 :: (inner ++ [b.2]) ++ r) = b.1 :: (inner ++ b.2 :: trimEnd r) ∧
        bracketed? b.1 b.2 (b.1 :: (inner ++ b.2 :: trimEnd r)) = some (inner, trimEnd r) := by
    refine ⟨?_, hi.bracketed? hb _⟩
    have hblank : ∀ b ∈ brackets, isBlank b.1 = false ∧ isBlank b.2 = false := by decide
    obtain ⟨h₁, h₂⟩ := hblank b hb
    have hend : trimEnd (b.2 :: r) = b.2 :: trimEnd r :=
      trimEnd_append_of_forall (x := [b.2]) (by simpa using h₂) r
    rw [trim, List.cons_append, trimStart_cons_of_not_blank h₁, List.append_assoc,
      List.singleton_append, ← List.cons_append, trimEnd_append, hend, if_neg (List.cons_ne_nil _ _),
      List.cons_append]
  cases hd with
  | empty g =>
    obtain ⟨ht, hb⟩ := hsplit (b := ('[', ']')) (by decide) (nested_blank g.2).weaken
    refine ⟨'[' :: (g.1 ++ [']']), ?_, resolveList?_empty g⟩
    rw [splitArguments?, ht]
    simp [hb, trim_trimEnd]
  | @list parts es _ hitems =>
    obtain ⟨ht, hb⟩ := hsplit (b := ('[', ']')) (by decide) (nested_intercalate hitems)
    refine ⟨'[' :: ([','].intercalate parts ++ [']']), ?_, resolveList?_list hitems⟩
    rw [splitArguments?, ht]
    simp [hb, trim_trimEnd]
  | @call s e hitem =>
    obtain ⟨ht, hb⟩ := hsplit (b := ('(', ')')) (by decide) hitem.nested.weaken
    refine ⟨s, ?_, fun bindings => ?_⟩
    · rw [splitArguments?, ht]
      simp [hb, trim_trimEnd]
    · simpa using resolveList?_item hitem bindings

/-! ## What is sent -/

theorem splitArguments?_trim (s : Text) : splitArguments? (trim s) = splitArguments? s := by
  rw [splitArguments?, splitArguments?, trim_trim]

theorem bodyResolve?_trim (s : Text) : Body.resolve? (trim s) = Body.resolve? s := by
  rw [Body.resolve?, Body.resolve?, trim_trim]

/-- **A general request whose headers have an end of their own is sent as it is written**, if its
white space is collapsed and nothing in it is read as a `get` or a `post`. -/
theorem parse?_generalText {m p path h b : Text} {method : Method} {es : List HeaderExpr}
    {body : Option Text} (bindings : Bindings) (hm : (m, method) ∈ Method.aliases)
    (hp : Denotes p path) (hh : HeaderExpr.Delimited h es) (hb : Body.resolve? b = some body)
    (hc : collapse (generalText m p (argumentsText h b)) = generalText m p (argumentsText h b))
    (hget : get? (generalText m p (argumentsText h b)) = none)
    (hpost : post? (generalText m p (argumentsText h b)) = none) :
    Request.parse? bindings (generalText m p (argumentsText h b)) =
      some ⟨method, path, es.flatMap HeaderExpr.ownHeaders, body⟩ := by
  have ha : allBlank (argumentsText h b) = false := by
    obtain ⟨c, r, rfl, hblank⟩ : ∃ c r, h = c :: r ∧ isBlank c = false := by
      cases hh with
      | empty g => exact ⟨'[', _, rfl, by decide⟩
      | list _ _ => exact ⟨'[', _, rfl, by decide⟩
      | call _ => exact ⟨'(', _, rfl, by decide⟩
    simp [argumentsText, allBlank, hblank]
  obtain ⟨headers, hsplit, hheaders⟩ := splitArguments?_of_delimited hh (' ' :: b)
  have hbody : Body.resolve? (trim (' ' :: b)) = some body := by
    rw [trim_cons_of_isBlank (by decide), bodyResolve?_trim, hb]
  rw [Request.parse?, hc, find?_generalText hm hp.isRaw ha hget hpost, Option.bind_some,
    RequestExpr.resolve?, Method.ofName?_of_mem_aliases hm, splitArguments?_trim, argumentsText,
    hsplit]
  simp [hheaders, hbody, hp.eq]

/-- The headers of a request: a tuple with a bracket and a comma in its value, and a range. -/
def itemsHeaders : Text := "[(\"Prefer\", \"a],b\"), rangeHdrs $ ByteRangeFrom 5 ]".toList

theorem delimited_itemsHeaders : HeaderExpr.Delimited itemsHeaders
    [.tuple "Prefer".toList "a],b".toList, .rangeFrom 5] := by
  have hspace : allBlank [' '] = true := by decide
  have hname : Denotes "Prefer".toList "Prefer".toList := ⟨by decide, by decide⟩
  have hvalue : Denotes "a],b".toList "a],b".toList := ⟨by decide, by decide⟩
  have htuple : HeaderExpr.Written "(\"Prefer\", \"a],b\")".toList
      (.tuple "Prefer".toList "a],b".toList) :=
    .tuple .none .none ⟨[' '], hspace⟩ .none (by decide) (by decide) hname hvalue
  have hfive : Digits "5".toList 5 := ⟨by decide, by decide, by decide, by decide⟩
  have hrange : HeaderExpr.Written "rangeHdrs $ ByteRangeFrom 5".toList (.rangeFrom 5) :=
    .rangeFrom (.applied ⟨[' '], by decide⟩ ⟨[' '], hspace⟩ (.cons ⟨[' '], by decide⟩ hfive .nil))
  exact .list (List.cons_ne_nil _ _)
    (.cons (.mk .none .none htuple) (.cons (.mk ⟨[' '], hspace⟩ ⟨[' '], hspace⟩ hrange) .nil))

theorem parse?_generalText_items : ("methodPatch".toList, Method.patch) ∈ Method.aliases ∧
    Denotes "/items".toList "/items".toList ∧
    Body.resolve? "[json|[ 1 ]|]".toList = some (some "[1]".toList) ∧
    Request.parse? [] (generalText "methodPatch".toList "/items".toList
        (argumentsText itemsHeaders "[json|[ 1 ]|]".toList)) =
      some ⟨.patch, "/items".toList, [Header.of "Prefer" "a],b", Header.of "Range-Unit" "items",
        Header.of "Range" "5-"], some "[1]".toList⟩ := by
  have hm : ("methodPatch".toList, Method.patch) ∈ Method.aliases := by decide +kernel
  have hp : Denotes "/items".toList "/items".toList := ⟨by decide, by decide⟩
  have hb : Body.resolve? "[json|[ 1 ]|]".toList = some (some "[1]".toList) := by decide +kernel
  exact ⟨hm, hp, hb, parse?_generalText [] hm hp delimited_itemsHeaders hb (by decide +kernel)
    (by decide +kernel) (by decide +kernel)⟩

end SpecHarvest.RequestExpr
