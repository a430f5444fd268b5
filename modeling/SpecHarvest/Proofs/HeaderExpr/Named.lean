import SpecHarvest.Proofs.Assoc
import SpecHarvest.Proofs.HeaderExpr.Bare

/-!
# Header expressions that are given a name

A `let` gives a header expression a name. A name is looked up as a single expression, so it has the
headers of what it is bound to, unless that is a list: a list has no headers under a name.

* `IsName x`: `x` can be the name of a binding and is no helper. `parse?_of_isName`: it is read as
  the name that it is.
* `resolve?_of_binding`: a name has the headers of what it is bound to, under the other bindings.
* `resolveList?_named`: the headers of an expression that is written out, and under a new name.
-/

namespace SpecHarvest.HeaderExpr

open Text Source Http

/-- An identifier that is not the plan helper. -/
structure IsName (x : Text) : Prop where
  ne_nil : x ≠ []
  all_isIdentChar : x.all isIdentChar = true
  ne_plan : x ≠ "planHdr".toList

instance (x : Text) : Decidable (IsName x) :=
  decidable_of_iff (x ≠ [] ∧ x.all isIdentChar = true ∧ x ≠ "planHdr".toList)
    ⟨fun h => ⟨h.1, h.2.1, h.2.2⟩, fun h => ⟨h.1, h.2, h.3⟩⟩

variable {x e : Text} {bindings : Bindings}

/-! ## Reading a name -/

theorem IsName.trim (h : IsName x) : Text.trim x = x :=
  trim_of_forall fun c hc => isBlank_of_isIdentChar (List.all_eq_true.1 h.all_isIdentChar c hc)

/-- No argument follows in an identifier. -/
theorem word?_bind_blanks?_eq_none (h : x.all isIdentChar = true) (helper : Text) :
    (word? helper x).bind blanks? = none := by
  rw [Option.eq_none_iff_forall_ne_some]
  intro r hr
  obtain ⟨s, hs, hb⟩ := Option.bind_eq_some_iff.1 hr
  obtain ⟨rfl, -⟩ := word?_eq_some_iff.1 hs
  unfold blanks? at hb
  split at hb
  · next c s =>
    have hc : isIdentChar c = true := List.all_eq_true.1 h c (by simp)
    rw [isBlank_of_isIdentChar hc] at hb
    cases hb
  · cases hb

theorem stringArgument?_of_ident (h : x.all isIdentChar = true) (helper : Text) :
    stringArgument? helper x = none := by
  simp only [stringArgument?, Option.bind_eq_bind]
  rw [← Option.bind_assoc, word?_bind_blanks?_eq_none h, Option.bind_none]

theorem rangeArguments?_of_ident (h : x.all isIdentChar = true) (helper constructor : Text)
    (n : Nat) : rangeArguments? helper constructor n x = none := by
  simp only [rangeArguments?, Option.bind_eq_bind]
  rw [← Option.bind_assoc, word?_bind_blanks?_eq_none h, Option.bind_none]

theorem tuple?_of_ident (h : x.all isIdentChar = true) : tuple? x = none := by
  have hopen : after? ['('] x = none := by
    rw [Option.eq_none_iff_forall_ne_some]
    intro r hr
    rw [after?_eq_some_iff.1 hr] at h
    exact not_mem_of_all (c := '(') h (by decide) (by simp)
  simp [tuple?, hopen]

/-- **A name is read as a name.** -/
theorem parse?_of_isName (h : IsName x) : parse? x = some (.binding x) := by
  have hall := h.all_isIdentChar
  have hbinding : binding? x = some (.binding x) := by
    simp [binding?, h.ne_nil, hall]
  rw [parse?, h.trim]
  simp only [readers, List.findSome?_cons]
  rw [tuple?_of_ident hall, accept?, stringArgument?_of_ident hall, bearer?,
    stringArgument?_of_ident hall, plan?, if_neg h.ne_plan, rangeFromTo?,
    rangeArguments?_of_ident hall, rangeFrom?, rangeArguments?_of_ident hall, rangeWithCount?,
    rangeArguments?_of_ident hall, hbinding]
  rfl

/-! ## Looking it up -/

theorem resolve?_of_binding {s name : Text} (h : parse? s = some (.binding name)) :
    resolve? bindings s =
      (Assoc.get? name bindings).bind (resolve? (Assoc.erase name bindings)) := by
  rw [resolve?]
  simp only [h, headers]
  split
  · next hn => rw [hn, Option.bind_none]
  · next bound hb => rw [hb, Option.bind_some]

theorem resolve?_trim (s : Text) : resolve? bindings (Text.trim s) = resolve? bindings s := by
  have hparse : parse? (Text.trim s) = parse? s := by rw [parse?, parse?, trim_trim]
  rw [resolve?, resolve?]
  simp only [hparse]

/-- A list is no single expression. -/
theorem resolve?_of_bracket {s r : Text} (h : Text.trim s = '[' :: r) :
    resolve? bindings s = none := by
  have hparse : parse? s = none := by
    rw [Option.eq_none_iff_forall_ne_some]
    intro p hp
    have hbare := bare_of_parse? hp fun t ht => absurd (h.symm.trans ht) (by simp)
    rw [h] at hbare
    obtain ⟨w, y, hw, -⟩ := Bare.exists_of_bracket (f := []) hbare
    simp at hw
  rw [resolve?]
  simp only [hparse]

theorem resolveList?_of_not_bracket {s : Text} (h : (Text.trim s).head? ≠ some '[') :
    resolveList? bindings s = resolve? bindings s := by
  rw [resolveList?]
  split
  · next heq => exact absurd (by rw [heq]; rfl) h
  · exact resolve?_trim s

/-- An identifier is looked up as a single expression. -/
theorem resolveList?_of_ident {s : Text} (h : (Text.trim s).all isIdentChar = true) :
    resolveList? bindings s = resolve? bindings (Text.trim s) := by
  have hhead : (Text.trim s).head? ≠ some '[' := fun hs =>
    not_mem_of_all h (by decide) (List.mem_of_head? hs)
  rw [resolveList?_of_not_bracket hhead, resolve?_trim]

/-! ## A new name -/

/-- A new name has the headers of the expression that it is bound to. -/
theorem resolve?_named (hx : IsName x) (hb : x ∉ bindings.map (·.1)) (e : Text) :
    resolve? (Assoc.set x e bindings) x = resolve? bindings e := by
  rw [resolve?_of_binding (parse?_of_isName hx), Assoc.get?_set, if_pos rfl, Option.bind_some,
    Assoc.erase_set_of_not_mem hb]

/-- **A header expression under a new name** has the headers that it has where it is written out,
unless it is a list. A list has none under a name. -/
theorem resolveList?_named {hs : List Header} (hx : IsName x) (hb : x ∉ bindings.map (·.1))
    (he : resolveList? bindings e = some hs) :
    resolveList? (Assoc.set x e bindings) x =
      if (Text.trim e).head? = some '[' then none else some hs := by
  have hident : (Text.trim x).all isIdentChar = true := by
    rw [hx.trim]
    exact hx.all_isIdentChar
  rw [resolveList?_of_ident hident, hx.trim, resolve?_named hx hb]
  split
  · next hlist =>
    obtain ⟨r, hr⟩ := List.head?_eq_some_iff.1 hlist
    exact resolve?_of_bracket hr
  · next hlist => rw [← resolveList?_of_not_bracket hlist, he]

/-- Bindings of which one leads to another. -/
def chainedBindings : Bindings :=
  [("inner".toList, "acceptHdrs \"text/csv\"".toList), ("outer".toList, "inner".toList)]

theorem resolveList?_named_chain : IsName "again".toList ∧
    "again".toList ∉ chainedBindings.map (·.1) ∧
    resolveList? chainedBindings " outer".toList = some [Header.of "Accept" "text/csv"] ∧
    resolveList? (Assoc.set "again".toList " outer".toList chainedBindings) "again".toList =
      some [Header.of "Accept" "text/csv"] := by
  have hx : IsName "again".toList := by decide
  have hb : "again".toList ∉ chainedBindings.map (·.1) := by decide
  have he : resolveList? chainedBindings " outer".toList =
      some [Header.of "Accept" "text/csv"] := by decide +kernel
  exact ⟨hx, hb, he, (resolveList?_named hx hb he).trans (if_neg (by decide))⟩

/-- **Not every expression keeps its headers under a name**: a list loses them. -/
theorem not_resolveList?_named : ¬∀ (bindings : Bindings) (e x : Text) (hs : List Header),
    resolveList? bindings e = some hs → IsName x → x ∉ bindings.map (·.1) →
      resolveList? (Assoc.set x e bindings) x = some hs := by
  intro h
  have hlist : resolveList? [] "[]".toList = some [] := by decide +kernel
  have hnamed := h [] "[]".toList "hdrs".toList [] hlist (by decide) (by simp)
  have hnone : resolveList? (Assoc.set "hdrs".toList "[]".toList []) "hdrs".toList = none := by
    decide +kernel
  rw [hnone] at hnamed
  cases hnamed

end SpecHarvest.HeaderExpr
