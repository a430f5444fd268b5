import SpecHarvest.Proofs.ExpectedExpr.Body
import SpecHarvest.RequestExpr

/-!
# Body expressions

A body expression is a quasi-literal or a string literal. A quasi-literal is looked for anywhere in
the expression, so one with other text around it counts, and so does one in a string literal.

* `Denoted s b`: the whole text `s` is a literal that denotes the body `b`.
* `FirstQuasi s front content rest`: the first quasi-literal of `s`, and what stands around it.
* `Body.resolve?_expression`: the body of an expression. It is what the expression denotes, unless a
  quasi-literal in it has text around it; then that text is passed over.
-/

namespace SpecHarvest

open Text Source Json

namespace Body

variable {s front content rest raw b : Text}

/-! ## Forms -/

/-- Texts that are one literal, with the body that they denote. -/
inductive Denoted : Text → Text → Prop
  | quasi {content : Text} {v : Value} : contains quasiClose content = false →
    parseRelaxed (trim content) = .ok v → Denoted (quasi content) v.compact
  | literal {raw : Text} : Raw raw → raw ≠ [] → Denoted (literal raw) (ofText (unescape raw))

/-- The first quasi-literal of a text. -/
structure FirstQuasi (s front content rest : Text) : Prop where
  eq : s = front ++ (quasi content ++ rest)
  first : ∀ f r, s = f ++ quasiOpen ++ r → front.length ≤ f.length
  closed : contains quasiClose content = false

theorem firstQuasi_iff : FirstQuasi s front content rest ↔
    ∃ r, cut? quasiOpen s = some (front, r) ∧ cut? quasiClose r = some (content, rest) := by
  constructor
  · rintro ⟨hs, hfirst, hclosed⟩
    refine ⟨content ++ (quasiClose ++ rest), cut?_eq_some_iff.2 ⟨?_, hfirst⟩,
      cut?_quasiClose hclosed rest⟩
    rw [hs, quasi]
    simp
  · rintro ⟨r, hopen, hclose⟩
    obtain ⟨hs, hfirst⟩ := cut?_eq_some_iff.1 hopen
    obtain ⟨rfl, hmin⟩ := cut?_eq_some_iff.1 hclose
    refine ⟨?_, hfirst, ?_⟩
    · rw [hs, quasi]
      simp
    · -- a closing mark in the content would come before the first one
      rw [Bool.eq_false_iff, ne_eq, contains_iff]
      rintro ⟨f, t, rfl⟩
      have hle := hmin f (t ++ (quasiClose ++ rest)) (by simp)
      have hlen : 0 < quasiClose.length := by decide
      simp only [List.length_append] at hle
      omega

/-- **The quasi-literal that is looked for** is the first one. -/
theorem quasiContent?_eq_some_iff {c : Text} : quasiContent? s = some c ↔
    ∃ front content rest, FirstQuasi s front content rest ∧ c = trim content := by
  simp only [quasiContent?, Option.bind_eq_bind, Option.bind_eq_some_iff, firstQuasi_iff]
  constructor
  · rintro ⟨⟨front, r⟩, hopen, ⟨content, rest⟩, hclose, hc⟩
    exact ⟨front, content, rest, ⟨r, hopen, hclose⟩, (Option.some.inj hc).symm⟩
  · rintro ⟨front, content, rest, ⟨r, hopen, hclose⟩, rfl⟩
    exact ⟨_, hopen, _, hclose, rfl⟩

theorem FirstQuasi.unique {front' content' rest' : Text} (h : FirstQuasi s front content rest)
    (h' : FirstQuasi s front' content' rest') :
    front = front' ∧ content = content' ∧ rest = rest' := by
  obtain ⟨r, hopen, hclose⟩ := firstQuasi_iff.1 h
  obtain ⟨r', hopen', hclose'⟩ := firstQuasi_iff.1 h'
  obtain ⟨rfl, rfl⟩ := Prod.mk.inj (Option.some.inj (hopen.symm.trans hopen'))
  obtain ⟨rfl, rfl⟩ := Prod.mk.inj (Option.some.inj (hclose.symm.trans hclose'))
  exact ⟨rfl, rfl, rfl⟩

theorem firstQuasi_quasi (h : contains quasiClose content = false) :
    FirstQuasi (quasi content) [] content [] :=
  ⟨by simp, fun _ _ _ => Nat.zero_le _, h⟩

theorem wholeLiteral?_eq_some_iff : wholeLiteral? s = some raw ↔ s = literal raw ∧ Raw raw := by
  unfold wholeLiteral?
  constructor
  · intro h
    split at h
    · next heq =>
      obtain rfl := Option.some.inj h
      obtain ⟨hraw, rfl⟩ := quoted?_eq_some_iff.1 heq
      exact ⟨rfl, hraw⟩
    · cases h
  · rintro ⟨rfl, hraw⟩
    have hquoted : quoted? (literal raw) = some (raw, []) := hraw.quoted? []
    rw [hquoted]

theorem isNone_iff : isNone s = true ↔ s = [] ∨ s = literal [] ∨ s = "mempty".toList := by
  simp [isNone, literal, or_assoc]

/-! ## Reading an expression -/

theorem FirstQuasi.not_isNone (h : FirstQuasi s front content rest) : isNone s = false := by
  have hmem : '[' ∈ s := by
    rw [h.eq, quasi, show quasiOpen = '[' :: "json|".toList by decide]
    simp
  rw [Bool.eq_false_iff, ne_eq, isNone_iff]
  rintro (rfl | rfl | rfl) <;>
  · revert hmem
    decide

/-- What stands around the first quasi-literal is passed over. -/
theorem resolve?_of_firstQuasi (h : FirstQuasi (trim s) front content rest) :
    resolve? s = some (some b) ↔ ∃ v, parseRelaxed (trim content) = .ok v ∧ b = v.compact := by
  have hq : quasiContent? (trim s) = some (trim content) :=
    quasiContent?_eq_some_iff.2 ⟨_, _, _, h, rfl⟩
  simp only [resolve?, h.not_isNone, hq, Bool.false_eq_true, if_false]
  cases parseRelaxed (trim content) <;> simp [eq_comm]

theorem resolve?_eq_some_none_iff : resolve? s = some none ↔ isNone (trim s) = true := by
  constructor
  · intro h
    rw [← Bool.not_eq_false]
    intro hnone
    simp only [resolve?, hnone, Bool.false_eq_true, if_false] at h
    split at h
    · split at h <;> cases h
    · split at h
      · next raw hraw =>
        obtain ⟨hs, -⟩ := wholeLiteral?_eq_some_iff.1 hraw
        have hne : unescape raw ≠ [] := unescape_ne_nil fun hnil => by
          rw [hs, hnil] at hnone
          revert hnone
          decide
        rw [if_neg (by simpa using hne)] at h
        cases h
      · cases h
  · intro h
    rw [resolve?, h, if_pos rfl]

/-- Without a quasi-literal an expression is a string literal or not understood. -/
theorem resolve?_of_no_quasi (h : quasiContent? (trim s) = none) : resolve? s = some (some b) ↔
    ∃ raw, trim s = literal raw ∧ Raw raw ∧ raw ≠ [] ∧ b = ofText (unescape raw) := by
  constructor
  · intro hb
    have hnone : isNone (trim s) = false := by
      rw [Bool.eq_false_iff]
      intro hnone
      rw [resolve?_eq_some_none_iff.2 hnone] at hb
      cases hb
    simp only [resolve?, hnone, h, Bool.false_eq_true, if_false] at hb
    split at hb
    · next raw hraw =>
      obtain ⟨hs, hraw⟩ := wholeLiteral?_eq_some_iff.1 hraw
      have hne : raw ≠ [] := by
        rintro rfl
        rw [hs] at hnone
        revert hnone
        decide
      rw [if_neg (by simpa using unescape_ne_nil hne)] at hb
      exact ⟨raw, hs, hraw, hne, (Option.some.inj (Option.some.inj hb)).symm⟩
    · cases hb
  · rintro ⟨raw, hs, hraw, hne, rfl⟩
    have hnone : isNone (trim s) = false := by
      rw [Bool.eq_false_iff, ne_eq, isNone_iff, hs]
      rintro (hs | hs | hs)
      · cases hs
      · exact hne (List.append_cancel_right (List.cons.inj hs).2)
      · cases hs
    have hwhole : wholeLiteral? (trim s) = some raw := wholeLiteral?_eq_some_iff.2 ⟨hs, hraw⟩
    simp only [resolve?, hnone, h, hwhole, Bool.false_eq_true, if_false]
    rw [if_neg (by simpa using unescape_ne_nil hne)]

/-- **The body of an expression.** An expression of no body has none. One in which no quasi-literal
has text around it has the body that it denotes, and is not understood if it denotes none. In any
other expression the text around the first quasi-literal is passed over. -/
theorem resolve?_expression (s : Text) :
    (resolve? s = some none ↔ isNone (trim s) = true) ∧
    ((∀ front content rest, FirstQuasi (trim s) front content rest → front = [] ∧ rest = []) →
      ∀ b, resolve? s = some (some b) ↔ Denoted (trim s) b) ∧
    (∀ front content rest, FirstQuasi (trim s) front content rest →
      ∀ b, resolve? s = some (some b) ↔
        ∃ v, parseRelaxed (trim content) = .ok v ∧ b = v.compact) := by
  refine ⟨resolve?_eq_some_none_iff, fun halone b => ?_,
    fun front content rest h b => resolve?_of_firstQuasi h⟩
  cases hq : quasiContent? (trim s) with
  | some c =>
    obtain ⟨front, content, rest, h, -⟩ := quasiContent?_eq_some_iff.1 hq
    obtain ⟨rfl, rfl⟩ := halone _ _ _ h
    have hs : trim s = quasi content := by simpa using h.eq
    rw [resolve?_of_firstQuasi h, hs]
    constructor
    · rintro ⟨v, hv, rfl⟩
      exact .quasi h.closed hv
    · intro hd
      generalize ht : quasi content = t at hd
      cases hd with
      | quasi hclosed hv =>
        obtain rfl := List.append_cancel_right (List.append_cancel_left ht)
        exact ⟨_, hv, rfl⟩
      | literal => cases ht
  | none =>
    rw [resolve?_of_no_quasi hq]
    constructor
    · rintro ⟨raw, hs, hraw, hne, rfl⟩
      rw [hs]
      exact .literal hraw hne
    · intro hd
      generalize ht : trim s = t at hd hq
      cases hd with
      | @quasi content v hclosed hv =>
        rw [quasiContent?_eq_some_iff.2 ⟨_, _, _, firstQuasi_quasi hclosed, rfl⟩] at hq
        cases hq
      | @literal raw hraw hne => exact ⟨raw, rfl, hraw, hne, rfl⟩

/-- A call with a quasi-literal as its argument. -/
def encodedBody : Text := "encode [json|\x7b\"a\":1\x7d|]".toList

theorem firstQuasi_encodedBody :
    FirstQuasi (trim encodedBody) "encode ".toList "\x7b\"a\":1\x7d".toList [] :=
  firstQuasi_iff.2 ⟨"\x7b\"a\":1\x7d|]".toList, by decide, by decide⟩

theorem resolve?_expression_text :
    resolve? "mempty".toList = some none ∧
    resolve? (quasi "[1, 2]".toList) = some (some "[1,2]".toList) ∧
    resolve? encodedBody = some (some "\x7b\"a\":1\x7d".toList) := by
  have hnone : resolve? "mempty".toList = some none := (resolve?_expression _).1.2 (by decide)
  have hdenoted : Denoted (trim (quasi "[1, 2]".toList)) "[1,2]".toList := by
    have hparse : parseRelaxed (trim "[1, 2]".toList) =
        .ok (.array [.number (.int 1), .number (.int 2)]) := rfl
    rw [trim_quasi]
    exact .quasi (by decide) hparse
  have halone : ∀ front content rest, FirstQuasi (trim (quasi "[1, 2]".toList)) front content rest →
      front = [] ∧ rest = [] := by
    intro front content rest h
    rw [trim_quasi] at h
    obtain ⟨rfl, -, rfl⟩ := h.unique (firstQuasi_quasi (by decide))
    exact ⟨rfl, rfl⟩
  have hencoded : parseRelaxed (trim "\x7b\"a\":1\x7d".toList) =
      .ok (.object [("a".toList, .number (.int 1))]) := rfl
  exact ⟨hnone, ((resolve?_expression _).2.1 halone _).2 hdenoted,
    ((resolve?_expression _).2.2 _ _ _ firstQuasi_encodedBody _).2 ⟨_, hencoded, by decide⟩⟩

theorem Denoted.head? (h : Denoted s b) : s.head? = some '[' ∨ s.head? = some '"' := by
  cases h with
  | quasi => exact .inl rfl
  | literal => exact .inr rfl

/-- **Not every expression with a body denotes it**: one in which a literal is an argument has the
body of the literal. -/
theorem not_denoted_of_resolve? :
    ¬∀ s b : Text, resolve? s = some (some b) → Denoted (trim s) b := by
  intro h
  have hd := h encodedBody "\x7b\"a\":1\x7d".toList (by decide +kernel)
  rcases hd.head? with hhead | hhead <;>
  · revert hhead
    decide

end Body

end SpecHarvest
