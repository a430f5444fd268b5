import Mathlib.Data.Nat.Find
import SpecHarvest.Proofs.ExpectedExpr.Body

/-!
# Literals and records that are not closed

An expectation may open a literal or a record of match attributes and not close it. An open string
literal makes it unreadable. An open quasi-literal and an open record do not: they are passed over
as if they were not there.

* `RecordAt s front rest`: in `s` a record opens between `front` and `rest`. `FirstRecord` is the
  first such place, and the only one that counts (`attributes?_of_firstRecord`).
* `Expected.parse?_of_opened`: what an expectation states that opens a literal or a record.
* `Expected.not_none_of_unclosed`: so neither an open quasi-literal nor an open record is noticed.
-/

namespace SpecHarvest

open Text Source Json

namespace ExpectedExpr

/-! ## The body -/

theorem isSome_of_body? {s : Text} {body : Option Value} (h : body? s = some body)
    (hs : (quasiContent? s).isSome = true ∨ startsWith ['"'] s = true) : body.isSome = true := by
  cases hq : quasiContent? s with
  | some content =>
    obtain ⟨v, -, rfl⟩ := (body?_eq_some_iff_of_quasiContent? hq).1 h
    rfl
  | none =>
    rw [hq] at hs
    have hquote := hs.resolve_left Bool.false_ne_true
    rw [body?, hq, hquote, if_pos rfl] at h
    obtain ⟨q, -, rfl⟩ := Option.map_eq_some_iff.1 h
    rfl

theorem isSome_quasiContent?_append (r : Text) :
    (quasiContent? (quasiOpen ++ r)).isSome = contains quasiClose r := by
  have hopen : quasiOpen ≠ [] := by decide
  cases h : cut? quasiClose r <;> simp [quasiContent?, cut?_append_self hopen, contains, h]

/-- Without its closing mark a quasi-literal is no literal. -/
theorem body?_of_unclosed {r : Text} (h : contains quasiClose r = false) :
    body? (quasiOpen ++ r) = some none := by
  have hnone : quasiContent? (quasiOpen ++ r) = none := by
    rw [← Option.not_isSome_iff_eq_none, isSome_quasiContent?_append, h]
    exact Bool.false_ne_true
  have hquote : startsWith ['"'] (quasiOpen ++ r) = false := rfl
  rw [body?, hnone, hquote]
  rfl

/-! ## Records -/

/-- A record opens here: a brace with a match field after it, white space aside. -/
structure RecordAt (s front rest : Text) : Prop where
  eq : s = front ++ '{' :: rest
  field : matchFields.any (startsWith · (trimStart rest)) = true

/-- The first place where a record opens. -/
structure FirstRecord (s front rest : Text) : Prop extends RecordAt s front rest where
  first : ∀ f r, RecordAt s f r → front.length ≤ f.length

theorem RecordAt.exists_first {s front rest : Text} (h : RecordAt s front rest) :
    ∃ f r, FirstRecord s f r := by
  classical
  have hex : ∃ n f r, RecordAt s f r ∧ f.length = n := ⟨_, front, rest, h, rfl⟩
  obtain ⟨f, r, hr, hlen⟩ := Nat.find_spec hex
  refine ⟨f, r, hr, fun f' r' h' => ?_⟩
  rw [hlen]
  exact Nat.find_min' hex ⟨f', r', h', rfl⟩

/-- **The first record is the one that is read**, up to its closing brace. -/
theorem attributes?_of_firstRecord {s front rest : Text} (h : FirstRecord s front rest) :
    attributes? s = (matching? '{' '}' 1 false rest).map (·.1) := by
  induction front generalizing s with
  | nil =>
    have hfield := h.field
    rw [h.eq, List.nil_append, attributes?, hfield, if_pos (by decide)]
  | cons c front ih =>
    have hno : ¬(decide (c = '{') &&
        matchFields.any (startsWith · (trimStart (front ++ '{' :: rest)))) = true := by
      rw [Bool.and_eq_true, decide_eq_true_eq]
      rintro ⟨rfl, hfield⟩
      have hle := h.first [] _ ⟨h.eq, hfield⟩
      exact absurd hle (Nat.not_succ_le_zero _)
    have htail : FirstRecord (front ++ '{' :: rest) front rest :=
      ⟨⟨rfl, h.field⟩, fun f r hr => Nat.le_of_succ_le_succ (h.first (c :: f) r ⟨by
        rw [h.eq, List.cons_append, hr.eq, List.cons_append], hr.field⟩)⟩
    rw [h.eq, List.cons_append, attributes?, if_neg hno, ih htail]

theorem RecordAt.all_isDigit {s front rest : Text} (h : RecordAt s front rest) :
    s.all Char.isDigit = false := by
  rw [h.eq, List.all_append, List.all_cons]
  simp [show Char.isDigit '{' = false from rfl]

theorem expectation?_eq_none_iff {body : Option Value} {record : Option Text} :
    expectation? body record = none ↔ ∃ block, record = some block ∧ statusOf? block = none := by
  cases record <;> simp [expectation?]

end ExpectedExpr

open ExpectedExpr

/-! ## The expectation -/

theorem Expected.parse?_of_not_digits {s : Text} (h : (trim s).all Char.isDigit = false) :
    Expected.parse? s =
      (body? (trim s)).bind fun body => expectation? body (attributes? (trim s)) := by
  rw [Expected.parse?_eq, h, Bool.and_false, if_neg (by decide)]

theorem Expected.isSome_body_of_parse? {s : Text} {e : Expected}
    (h : (trim s).all Char.isDigit = false)
    (hs : (quasiContent? (trim s)).isSome = true ∨ startsWith ['"'] (trim s) = true)
    (he : Expected.parse? s = some e) : e.body.isSome = true := by
  rw [parse?_of_not_digits h] at he
  obtain ⟨body, hbody, he⟩ := Option.bind_eq_some_iff.1 he
  rw [(expectation?_eq_some he).1]
  exact isSome_of_body? hbody hs

theorem Expected.parse?_eq_none_iff_of_recordAt {s front rest : Text}
    (h : RecordAt (trim s) front rest) : Expected.parse? s = none ↔
      body? (trim s) = none ∨ ∃ f r inner tail, FirstRecord (trim s) f r ∧
        matching? '{' '}' 1 false r = some (inner, tail) ∧ statusOf? inner = none := by
  have hrecord : (∃ block, attributes? (trim s) = some block ∧ statusOf? block = none) ↔
      ∃ f r inner tail, FirstRecord (trim s) f r ∧
        matching? '{' '}' 1 false r = some (inner, tail) ∧ statusOf? inner = none := by
    constructor
    · rintro ⟨block, hblock, hstatus⟩
      obtain ⟨f, r, hfirst⟩ := h.exists_first
      rw [attributes?_of_firstRecord hfirst, Option.map_eq_some_iff] at hblock
      obtain ⟨⟨inner, tail⟩, hm, rfl⟩ := hblock
      exact ⟨f, r, inner, tail, hfirst, hm, hstatus⟩
    · rintro ⟨f, r, inner, tail, hfirst, hm, hstatus⟩
      exact ⟨inner, by rw [attributes?_of_firstRecord hfirst, hm, Option.map_some], hstatus⟩
  rw [parse?_of_not_digits h.all_isDigit, ← hrecord]
  cases body? (trim s) with
  | none => simp
  | some body => simp [expectation?_eq_none_iff]

/-- **What an expectation states that opens a literal or a record**, white space at its ends aside.

At the start a string literal always gives a body, and a quasi-literal just if it is closed; an open
one is passed over. The first record that is opened decides on status and headers: if it is not
closed, status and headers are the default ones. So with a record somewhere, open or not, the
expectation is unreadable just if its body or the status in a first, closed record is. -/
theorem Expected.parse?_of_opened (t : Text) :
    (startsWith ['"'] (trim t) = true → ∀ e, Expected.parse? t = some e → e.body.isSome = true) ∧
    (∀ r, trim t = quasiOpen ++ r →
      (contains quasiClose r = true → ∀ e, Expected.parse? t = some e → e.body.isSome = true) ∧
      (contains quasiClose r = false →
        Expected.parse? t = expectation? none (attributes? (trim t)))) ∧
    (∀ front rest, FirstRecord (trim t) front rest → matching? '{' '}' 1 false rest = none →
      Expected.parse? t =
        (body? (trim t)).map fun body => { Expected.ofStatus defaultStatus with body := body }) ∧
    (∀ front rest, RecordAt (trim t) front rest →
      (Expected.parse? t = none ↔ body? (trim t) = none ∨ ∃ f r inner tail,
        FirstRecord (trim t) f r ∧ matching? '{' '}' 1 false r = some (inner, tail) ∧
          statusOf? inner = none)) := by
  refine ⟨fun hquote e he => ?_, fun r hr => ⟨fun hclosed e he => ?_, fun hopen => ?_⟩,
    fun front rest hfirst hopen => ?_, fun front rest hrecord => ?_⟩
  · obtain ⟨s, hs⟩ := startsWith_iff.1 hquote
    have hdigits : (trim t).all Char.isDigit = false := by rw [hs]; rfl
    exact isSome_body_of_parse? hdigits (.inr hquote) he
  · have hdigits : (trim t).all Char.isDigit = false := by rw [hr]; rfl
    have hcontent : (quasiContent? (trim t)).isSome = true := by
      rw [hr, isSome_quasiContent?_append, hclosed]
    exact isSome_body_of_parse? hdigits (.inl hcontent) he
  · have hdigits : (trim t).all Char.isDigit = false := by rw [hr]; rfl
    rw [parse?_of_not_digits hdigits, hr, body?_of_unclosed hopen, Option.bind_some]
  · rw [parse?_of_not_digits hfirst.all_isDigit, attributes?_of_firstRecord hfirst, hopen,
      Option.map_none]
    exact Option.map_eq_bind.symm
  · exact parse?_eq_none_iff_of_recordAt hrecord

/-- A quasi-literal that is not closed. -/
def openQuasi : Text := "[json|[1]".toList

/-- An empty body with a record that is not closed. -/
def openRecord : Text := "\"\" \x7b matchStatus = 404".toList

theorem firstRecord_openRecord :
    FirstRecord openRecord "\"\" ".toList " matchStatus = 404".toList := by
  refine ⟨⟨by decide, by decide⟩, fun f r h => ?_⟩
  have heq : ['"', '"', ' ', '{'] ++ " matchStatus = 404".toList = f ++ '{' :: r := h.eq
  match f with
  | [] => simp at heq
  | [_] => simp at heq
  | [_, _] => simp at heq
  | _ :: _ :: _ :: f => exact Nat.le_add_left 3 f.length

theorem Expected.parse?_of_opened_text : trim openQuasi = quasiOpen ++ "[1]".toList ∧
    contains quasiClose "[1]".toList = false ∧
    Expected.parse? openQuasi = some (Expected.ofStatus 200) ∧
    FirstRecord (trim openRecord) "\"\" ".toList " matchStatus = 404".toList ∧
    matching? '{' '}' 1 false " matchStatus = 404".toList = none ∧
    Expected.parse? openRecord = some { Expected.ofStatus 200 with body := some (.string []) } := by
  have hquasi : trim openQuasi = quasiOpen ++ "[1]".toList := by decide
  have hclose : contains quasiClose "[1]".toList = false := by decide
  have htrim : trim openRecord = openRecord := by decide
  have hfirst : FirstRecord (trim openRecord) "\"\" ".toList " matchStatus = 404".toList := by
    rw [htrim]
    exact firstRecord_openRecord
  have hopen : matching? '{' '}' 1 false " matchStatus = 404".toList = none := by decide
  have hbody : body? (trim openRecord) = some (some (.string [])) := by rfl
  refine ⟨hquasi, hclose, ?_, hfirst, hopen, ?_⟩
  · rw [((Expected.parse?_of_opened openQuasi).2.1 _ hquasi).2 hclose]
    rfl
  · rw [(Expected.parse?_of_opened openRecord).2.2.1 _ _ hfirst hopen, hbody]
    rfl

/-- A text that ends outside all literals. -/
inductive OutsideLiterals : Text → Prop
  | nil : OutsideLiterals []
  | char {c : Char} {s : Text} : c ≠ '"' → startsWith quasiOpen (c :: s) = false →
    OutsideLiterals s → OutsideLiterals (c :: s)
  | literal {raw s : Text} : Raw raw → OutsideLiterals s →
    OutsideLiterals ('"' :: (raw ++ '"' :: s))
  | quasi {content s : Text} : contains quasiClose content = false → OutsideLiterals s →
    OutsideLiterals (quasi content ++ s)

/-- **An open quasi-literal and an open record are not noticed**: the first leaves no body, the
second the status 200. -/
theorem Expected.not_none_of_unclosed :
    (¬∀ (t : Text) (e : Expected),
      startsWith quasiOpen (trim t) = true ∨ startsWith ['"'] (trim t) = true →
      Expected.parse? t = some e → e.body.isSome = true) ∧
    ¬∀ front gap gap' rest : Text, OutsideLiterals front → allBlank gap = true →
      allBlank gap' = true →
      matching? '{' '}' 1 false (gap ++ ("matchStatus".toList ++ (gap' ++ '=' :: rest))) = none →
      Expected.parse? (front ++ '{' :: (gap ++ ("matchStatus".toList ++ (gap' ++ '=' :: rest)))) =
        none := by
  constructor
  · intro h
    have hparse : (Expected.parse? openQuasi).map (·.body.isSome) = some false := by decide
    obtain ⟨e, he, hbody⟩ := Option.map_eq_some_iff.1 hparse
    rw [h _ e (.inl (by decide)) he] at hbody
    cases hbody
  · intro h
    have hcode : OutsideLiterals "\"\" ".toList :=
      .literal .nil (.char (by decide) (by decide) .nil)
    have hnone := h "\"\" ".toList [' '] [' '] " 404".toList hcode rfl rfl (by decide)
    have hsome : (Expected.parse? openRecord).isSome = true := by decide
    have htext : openRecord = "\"\" ".toList ++
        '{' :: ([' '] ++ ("matchStatus".toList ++ ([' '] ++ '=' :: " 404".toList))) := by decide
    rw [htext, hnone] at hsome
    cases hsome

end SpecHarvest
