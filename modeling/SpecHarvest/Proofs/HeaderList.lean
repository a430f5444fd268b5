import SpecHarvest.Proofs.HeaderExpr.Written
import SpecHarvest.Proofs.HeaderMatcher.Written

/-!
# Lists of header expressions and of matchers

Both are written in square brackets with commas between the elements. `headerList_elements`: each of
them is read element by element, and one element that is not understood makes the whole list
unreadable.
-/

namespace SpecHarvest

open Text Source Http

/-- The text of a list with some elements. -/
def listOf (elements : List Text) : Text := '[' :: ([','].intercalate elements ++ [']'])

/-- **Elements that are joined to a list are found again.** -/
theorem topLevel_elements {elements : List Text}
    (h : ∀ e ∈ elements, allBlank e = false ∧ Balanced ',' e) :
    topLevel ',' ([','].intercalate elements) = elements :=
  topLevel_intercalate (by decide) (by decide) (fun e he => (h e he).2.isPart)
    fun e he => (h e (List.mem_of_getLast? he)).1

/-- **A list is read element by element**: the headers of a list of expressions are those of the
expressions put together, and the matchers of a list are sorted by kind, each kind in its order. -/
theorem headerList_elements (bindings : Bindings) {elements : List Text}
    (h : ∀ e ∈ elements, allBlank e = false ∧ Balanced ',' e) :
    HeaderExpr.resolveList? bindings (listOf elements) =
        (elements.mapM (HeaderExpr.resolve? bindings)).map List.flatten ∧
      HeaderMatchers.parse? (listOf elements) =
        (elements.mapM HeaderMatcher.parse?).map HeaderMatchers.ofList := by
  rw [listOf, HeaderExpr.resolveList?_brackets, HeaderMatchers.parse?_brackets, topLevel_elements h]
  exact ⟨rfl, rfl⟩

/-- Three header expressions, with brackets, commas and an escaped quote in them. -/
def nestedExprs : List Text :=
  ["(\"A\", \"x,y]\")".toList, " authHeaderJWT \"t\\\"[\"".toList,
    "rangeHdrs (ByteRangeFrom 5) ".toList]

/-- Two matchers, the first with a comma and a bracket in its value. -/
def nestedMatchers : List Text :=
  ["\"A\" <:> \"x,]\\\"\"".toList, " matchHeaderAbsent \"B\"".toList]

theorem headerList_elements_nested :
    HeaderExpr.resolveList? [] (listOf nestedExprs) = some
      [Header.of "A" "x,y]", Header.of "Authorization" "Bearer t\"[", HeaderExpr.rangeUnit,
        Header.of "Range" "5-"] ∧
    HeaderMatchers.parse? (listOf nestedMatchers) =
      some ⟨[Header.of "A" "x,]\""], ["B".toList], []⟩ :=
  ⟨(headerList_elements [] (by decide)).1.trans (by decide +kernel),
    (headerList_elements [] (by decide)).2.trans (by decide +kernel)⟩

end SpecHarvest
