import SpecHarvest.Proofs.ExpectedExpr.Body
import SpecHarvest.Proofs.Json.Numeral
import SpecHarvest.Proofs.Source.Delimiter
import SpecHarvest.Proofs.Source.Keyword
import SpecHarvest.Proofs.Text.Occurrence

/-!
# A number at the front of an expectation

A number is the status of an expectation if it is the whole text. With anything else after it, the
text is read as one without a status: `404 { matchHeaders = [] }` expects 200.

* `Expected.parse?_number`: what such a text states, when it does not name `matchStatus`.
* `statusOf?_of_not_contains`: a record that does not name `matchStatus` has the default status.
* `quasiContent?_number`: the number does not hide a body, nor does white space at the end.
-/

namespace SpecHarvest

open Text Source Json Json.Binary64 ExpectedExpr

/-! ## The number -/

theorem not_isBlank_of_mem_digitsOf {n : Nat} {c : Char} (h : c ∈ digitsOf n) :
    isBlank c = false :=
  not_isBlank_of_isDigit (isDigit_of_mem_digitsOf h)

theorem digitsValue_digitsOf (n : Nat) : digitsValue (digitsOf n) = n :=
  Nat.ofDigitChars_toDigits (by decide) (by decide)

theorem natural?_digitsOf {n : Nat} (h : n ≤ maxNatural) :
    natural? (digitsOf n) = some (n, []) := by
  have hstop : Stops [] := by simp [Stops]
  obtain ⟨htake, hdrop⟩ := takeWhile_digits (fun _ => isDigit_of_mem_digitsOf (n := n)) hstop
  rw [List.append_nil] at htake hdrop
  have hne : (digitsOf n).isEmpty = false := by simpa using digitsOf_ne_nil n
  simp [natural?, htake, hdrop, hne, digitsValue_digitsOf, h]

theorem trim_digitsOf_append (n : Nat) (r : Text) :
    trim (digitsOf n ++ r) = digitsOf n ++ trimEnd r := by
  have hstart : trimStart (digitsOf n ++ r) = digitsOf n ++ r := by
    obtain ⟨c, ds, hds, -, hc⟩ := exists_digitsOf_eq_cons n
    rw [hds, List.cons_append, trimStart_cons_of_not_blank (not_isBlank_of_isDigit hc)]
  rw [trim, hstart, trimEnd_append_of_forall fun c => not_isBlank_of_mem_digitsOf]

/-! ## What comes after it -/

namespace ExpectedExpr

theorem isInfix_of_attributes? {s block : Text} (h : attributes? s = some block) :
    block <:+: s := by
  induction s with
  | nil => cases h
  | cons c s ih =>
    rw [attributes?] at h
    split at h
    · obtain ⟨⟨inner, rest⟩, hm, rfl⟩ := Option.map_eq_some_iff.1 h
      rw [eq_of_matching? hm]
      exact ⟨[c], '}' :: rest, by simp⟩
    · exact (ih h).trans (List.suffix_cons c s).isInfix

theorem field?_eq_none {name block : Text} (h : ¬name <:+: block) : field? name block = none := by
  rw [field?, keyword?_eq_none h]
  rfl

/-- **A record that does not name a status** has the default one. -/
theorem statusOf?_of_not_contains {block : Text} (h : ¬"matchStatus".toList <:+: block) :
    statusOf? block = some defaultStatus := by
  rw [statusOf?, field?_eq_none h]

theorem exists_expectation? (body : Option Value) {s : Text} (h : ¬"matchStatus".toList <:+: s) :
    ∃ e, expectation? body (attributes? s) = some e ∧ e.status = defaultStatus ∧ e.body = body := by
  cases ha : attributes? s with
  | none => exact ⟨_, rfl, rfl, rfl⟩
  | some block =>
    have hblock : ¬"matchStatus".toList <:+: block :=
      fun hm => h (hm.trans (isInfix_of_attributes? ha))
    rw [expectation?, statusOf?_of_not_contains hblock]
    exact ⟨_, rfl, rfl, rfl⟩

end ExpectedExpr

theorem quasiContent?_trimEnd (s : Text) : quasiContent? (trimEnd s) = quasiContent? s := by
  obtain ⟨w, hs, hw⟩ := exists_trimEnd_append s
  have hblank {c : Char} (hc : isBlank c = false) : c ∉ w := by
    intro hm
    rw [List.all_eq_true.1 hw c hm] at hc
    cases hc
  conv_rhs => rw [hs]
  rw [quasiContent?_append_right (hblank (by decide)) (hblank (by decide))]

theorem ne_of_mem_digitsOf {n : Nat} {d : Char} (hd : d.isDigit = false) :
    ∀ c ∈ digitsOf n, d ≠ c := by
  rintro c hc rfl
  rw [isDigit_of_mem_digitsOf hc] at hd
  cases hd

theorem quasiContent?_number (n : Nat) (r : Text) :
    quasiContent? (digitsOf n ++ trimEnd r) = quasiContent? r := by
  have hdigits : '[' ∉ digitsOf n := fun hm => ne_of_mem_digitsOf (by decide) '[' hm rfl
  rw [quasiContent?_append_left hdigits, quasiContent?_trimEnd]

/-! ## The expectation -/

theorem not_isInfix_number {n : Nat} {r : Text} (h : contains "matchStatus".toList r = false) :
    ¬"matchStatus".toList <:+: digitsOf n ++ trimEnd r := by
  intro hm
  have hname : "matchStatus".toList = 'm' :: "atchStatus".toList := by decide
  rw [← contains_iff, hname, contains_append_of_forall (ne_of_mem_digitsOf (by decide)), ← hname,
    contains_iff] at hm
  obtain ⟨w, hw, -⟩ := exists_trimEnd_append r
  have hpre : trimEnd r <+: r := ⟨w, hw.symm⟩
  have hr : "matchStatus".toList <:+: r := hm.trans hpre.isInfix
  rw [← contains_iff, h] at hr
  cases hr

/-- What is left of white space with something after it starts with white space. -/
theorem exists_trimEnd_eq_cons (b : Char) {r : Text} (h : allBlank r = false) :
    ∃ t, trimEnd (b :: r) = b :: t := by
  obtain ⟨w, hs, -⟩ := exists_trimEnd_append (b :: r)
  cases ht : trimEnd (b :: r) with
  | nil =>
    rw [trimEnd_eq_nil_iff, allBlank, List.all_cons, ← allBlank, h, Bool.and_false] at ht
    cases ht
  | cons c t =>
    rw [ht] at hs
    obtain ⟨rfl, -⟩ := List.cons.inj hs
    exact ⟨t, rfl⟩

/-- Something after the number makes it part of a text with a body and a record. -/
theorem Expected.parse?_number_append {n : Nat} {b : Char} {r : Text} (hb : isBlank b = true)
    (hr : allBlank r = false) : Expected.parse? (digitsOf n ++ b :: r) =
      (body? (digitsOf n ++ trimEnd (b :: r))).bind fun body =>
        expectation? body (attributes? (digitsOf n ++ trimEnd (b :: r))) := by
  have hall : (digitsOf n ++ trimEnd (b :: r)).all Char.isDigit = false := by
    obtain ⟨t, ht⟩ := exists_trimEnd_eq_cons b hr
    have hdigit : b.isDigit = false := by
      rw [Bool.eq_false_iff]
      intro hd
      rw [not_isBlank_of_isDigit hd] at hb
      cases hb
    simp [ht, hdigit]
  rw [Expected.parse?_eq, trim_digitsOf_append, hall, Bool.and_false, if_neg Bool.false_ne_true]

theorem body?_number {n : Nat} {r : Text} (h : quasiContent? r = none) :
    body? (digitsOf n ++ trimEnd r) = some none := by
  obtain ⟨c, ds, hds, -, hc⟩ := exists_digitsOf_eq_cons n
  have hquote : startsWith ['"'] (digitsOf n ++ trimEnd r) = false := by
    rw [hds, List.cons_append, startsWith_singleton_cons, beq_eq_false_iff_ne]
    rintro rfl
    exact absurd hc (by decide)
  rw [body?, quasiContent?_number, h, hquote]
  rfl

/-- **A number at the front** is the status of an expectation if nothing comes after it. With
anything else after it, and without `matchStatus`, the status is 200, and the body is that of the
first quasi-literal: there is an expectation unless that cannot be read. -/
theorem Expected.parse?_number {n : Nat} {b : Char} {r : Text} (hn : 100 ≤ n ∧ n ≤ 599)
    (hb : isBlank b = true) (hr : contains "matchStatus".toList (b :: r) = false) :
    (allBlank r = true → Expected.parse? (digitsOf n ++ b :: r) = some (.ofStatus n)) ∧
      (allBlank r = false →
        (quasiContent? (b :: r) = none → ∃ e, Expected.parse? (digitsOf n ++ b :: r) = some e ∧
          e.status = 200 ∧ e.body = none) ∧
        ∀ content, quasiContent? (b :: r) = some content →
          ∀ e, Expected.parse? (digitsOf n ++ b :: r) = some e →
            e.status = 200 ∧ ∃ v, parseRelaxed content = .ok v ∧ e.body = some v) := by
  constructor
  · intro hblank
    have hend : trimEnd (b :: r) = [] := by
      rw [trimEnd_eq_nil_iff, allBlank, List.all_cons, hb, ← allBlank, hblank]
      rfl
    have htrim : trim (digitsOf n ++ b :: r) = digitsOf n := by
      rw [trim_digitsOf_append, hend, List.append_nil]
    have hne : (digitsOf n).isEmpty = false := by simpa using digitsOf_ne_nil n
    have hall : (digitsOf n).all Char.isDigit = true :=
      List.all_eq_true.2 fun c => isDigit_of_mem_digitsOf
    have hmax : n ≤ maxNatural := Nat.le_trans hn.2 (by decide)
    rw [Expected.parse?_eq, htrim, hne, hall, natural?_digitsOf hmax]
    simp [status?, hn]
  · intro hblank
    have hrecord := fun body => exists_expectation? body (not_isInfix_number (n := n) hr)
    rw [Expected.parse?_number_append hb hblank]
    constructor
    · intro hq
      obtain ⟨e, he, hstatus, hbody⟩ := hrecord none
      rw [body?_number hq]
      exact ⟨e, he, hstatus, hbody⟩
    · intro content hq e he
      obtain ⟨body, hbody, he⟩ := Option.bind_eq_some_iff.1 he
      rw [body?_eq_some_iff_of_quasiContent? ((quasiContent?_number n (b :: r)).trans hq)] at hbody
      obtain ⟨v, hv, rfl⟩ := hbody
      obtain ⟨e', he', hstatus, hbody⟩ := hrecord (some v)
      rw [he'] at he
      obtain rfl := Option.some.inj he
      exact ⟨hstatus, v, hv, hbody⟩

/-- A record that names no status. -/
def headersRecord : Text := "{ matchHeaders = [matchContentTypeJson] }".toList

theorem headersRecord_facts : contains "matchStatus".toList (' ' :: headersRecord) = false ∧
    allBlank headersRecord = false ∧ quasiContent? (' ' :: headersRecord) = none := by decide

theorem Expected.parse?_number_headersRecord :
    (100 ≤ 404 ∧ 404 ≤ 599) ∧ isBlank ' ' = true ∧
      contains "matchStatus".toList (' ' :: headersRecord) = false ∧
      ∃ e, Expected.parse? (digitsOf 404 ++ ' ' :: headersRecord) = some e ∧
        e.status = 200 ∧ e.body = none := by
  obtain ⟨hm, hr, hq⟩ := headersRecord_facts
  have hn : 100 ≤ 404 ∧ 404 ≤ 599 := by decide
  have hb : isBlank ' ' = true := by decide
  exact ⟨hn, hb, hm, ((Expected.parse?_number hn hb hm).2 hr).1 hq⟩

/-- The number is not always the status. -/
theorem Expected.not_status_of_number : ¬∀ (n : Nat) (b : Char) (r : Text) (e : Expected),
    100 ≤ n ∧ n ≤ 599 → isBlank b = true →
    (∀ c ∈ (trimStart (b :: r)).head?, c.isDigit = false) →
    contains "matchStatus".toList (b :: r) = false →
    Expected.parse? (digitsOf n ++ b :: r) = some e → e.status = n ∧ e.body = none := by
  intro h
  obtain ⟨hm, hr, hq⟩ := headersRecord_facts
  have hb : isBlank ' ' = true := by decide
  have hhead : (trimStart (' ' :: headersRecord)).head? = some '{' := by decide
  have hc : ∀ c ∈ (trimStart (' ' :: headersRecord)).head?, c.isDigit = false := by
    intro c hc
    rw [hhead] at hc
    obtain rfl := Option.some.inj hc
    decide
  obtain ⟨e, he, hstatus, -⟩ :=
    exists_expectation? none (not_isInfix_number (n := 404) hm)
  have hparse : Expected.parse? (digitsOf 404 ++ ' ' :: headersRecord) = some e := by
    rw [Expected.parse?_number_append hb hr, body?_number hq]
    exact he
  obtain ⟨hfour, -⟩ := h 404 ' ' headersRecord e (by decide) hb hc hm hparse
  rw [hfour] at hstatus
  revert hstatus
  decide

end SpecHarvest
