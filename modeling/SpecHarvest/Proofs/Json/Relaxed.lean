import SpecHarvest.Json.Relaxed
import SpecHarvest.Proofs.Json.Accepted
import SpecHarvest.Proofs.Json.Rendering
import SpecHarvest.Proofs.Text.WordStart

/-!
# Relaxed JSON is read as it is written

The keys of a rendering may stand without their quotes. The scan that puts quotes around bare keys
sees a text character by character and knows of it only whether a key may come next.

* `quoteKeysAfter_plain`, `quoteKeysAfter_string`, `quoteKeysAfter_unclosed`, `quoteKeysAfter_name`:
  what the scan does with a character, a string, a string that is not closed and an identifier.
* `Tree.quoteBareKeys_of_parse?`: JSON proper is left alone.
* `QuotesTo last t u`: wherever a value or a field may stand after `last`, the scan makes `u` of
  `t`. `Renders.exists_quotesTo_of_strings` finds for every rendering with bare keys the one that
  the scan makes of it, and `Renders.exists_quotesTo` the one in JSON proper.
* `parseRelaxed_of_renders`: so every rendering is read as its value.
-/

namespace SpecHarvest.Json

open Text Source

/-! ## What the scan does -/

/-- What an identifier starts with. -/
def startsName (c : Char) : Bool := c.isAlpha || c == '_'

/-- Identifiers: the keys that may be bare. -/
def isName : Text → Bool
  | [] => false
  | c :: s => startsName c && s.all isIdentChar

section

variable {last last' : Option Char} {c : Char} {s rest : Text}

theorem quoteKeysAfter_nil : quoteKeysAfter last [] = [] := by rw [quoteKeysAfter]

theorem quoteKeysAfter_plain (hq : c ≠ '"') (hk : startsName c = false ∨ opensKey last = false) :
    quoteKeysAfter last (c :: s) =
      c :: quoteKeysAfter (if isKeySpace c then last else some c) s := by
  have hname : (startsName c && opensKey last) = false := by
    rcases hk with hk | hk <;> simp [hk]
  rw [startsName] at hname
  rw [quoteKeysAfter, if_neg hq, hname, if_neg Bool.false_ne_true]

/-- The scan only asks of the last character whether a key may follow it. -/
theorem quoteKeysAfter_congr (h : opensKey last = opensKey last') (s : Text) :
    quoteKeysAfter last s = quoteKeysAfter last' s := by
  induction s generalizing last last' with
  | nil => rw [quoteKeysAfter_nil, quoteKeysAfter_nil]
  | cons c s ih =>
    rw [quoteKeysAfter, quoteKeysAfter, h]
    split
    · rfl
    · split
      · rfl
      · rw [ih]
        split
        · exact h
        · rfl

theorem quoteKeysAfter_of_not_opens (h : opensKey last = false) (s : Text) :
    quoteKeysAfter last s = quoteKeysAfter none s :=
  quoteKeysAfter_congr h s

theorem quoteKeysAfter_string {raw : Text} (h : Raw raw) :
    quoteKeysAfter last ('"' :: (raw ++ '"' :: rest)) =
      '"' :: (raw ++ '"' :: quoteKeysAfter none rest) := by
  rw [quoteKeysAfter, if_pos rfl]
  split
  · next raw' rest' he =>
    rw [h.closeQuote? rest] at he
    obtain ⟨rfl, rfl⟩ := Prod.mk.inj (Option.some.inj he)
    rw [quoteKeysAfter_of_not_opens (by decide)]
    rfl
  · next he =>
    rw [h.closeQuote? rest] at he
    cases he

theorem isIdentChar_of_startsName (h : startsName c = true) : isIdentChar c = true := by
  rw [startsName, Bool.or_eq_true] at h
  simp only [isIdentChar, Char.isAlphanum, Bool.or_eq_true]
  exact h.imp_left .inl

/-- Neither a quote nor what a key follows belongs to a class of characters without them. -/
theorem quiet_of_class {p : Char → Bool} (hp : p '"' = false ∧ p '{' = false ∧ p ',' = false)
    (h : p c = true) : c ≠ '"' ∧ opensKey (some c) = false := by
  obtain ⟨hq, hb, hc⟩ := hp
  rw [opensKey, Bool.or_eq_false_iff, beq_eq_false_iff_ne, beq_eq_false_iff_ne]
  refine ⟨?_, ?_, ?_⟩ <;> rintro rfl <;> simp_all

theorem quiet_of_isIdentChar (h : isIdentChar c = true) : c ≠ '"' ∧ opensKey (some c) = false :=
  quiet_of_class (by decide) h

theorem quiet_of_isNumeralChar (h : isNumeralChar c = true) :
    c ≠ '"' ∧ opensKey (some c) = false :=
  quiet_of_class (by decide) h

/-- What is no string to its end is left as it is. -/
theorem quoteKeysAfter_unclosed (h : closeQuote? s = none) :
    quoteKeysAfter last ('"' :: s) = '"' :: s := by
  rw [quoteKeysAfter, if_pos rfl]
  split
  · next hs =>
    rw [h] at hs
    cases hs
  · rfl

theorem isIdentChar_of_mem_of_isName {k : Text} (h : isName k = true) :
    ∀ c ∈ k, isIdentChar c = true := by
  intro c hc
  cases k with
  | nil => cases h
  | cons d k =>
    rw [isName, Bool.and_eq_true, List.all_eq_true] at h
    rcases List.mem_cons.1 hc with rfl | hc
    · exact isIdentChar_of_startsName h.1
    · exact h.2 c hc

/-- An identifier where a key may stand is put into quotes if a colon follows it. -/
theorem quoteKeysAfter_name {name : Text} (hn : isName name = true) (hl : opensKey last = true)
    (hr : endsHere isIdentChar rest = true) : quoteKeysAfter last (name ++ rest) =
      (if startsWith [':'] (trimStart rest) then '"' :: (name ++ ['"']) else name) ++
        quoteKeysAfter none rest := by
  cases name with
  | nil => cases hn
  | cons c name =>
    rw [isName, Bool.and_eq_true, List.all_eq_true] at hn
    obtain ⟨hc, hn⟩ := hn
    obtain ⟨hq, hquiet⟩ := quiet_of_isIdentChar (isIdentChar_of_startsName hc)
    have hname : (startsName c && opensKey last) = true := by rw [hc, hl]; rfl
    rw [startsName] at hname
    obtain ⟨htake, hdrop⟩ := takeWhile_append_of_endsHere hn hr
    rw [List.cons_append, quoteKeysAfter, if_neg hq, if_pos hname]
    simp only [htake, hdrop]
    rw [quoteKeysAfter_of_not_opens hquiet]
    rfl

/-- Where no key may stand, a text without quotes, braces and commas is left alone. -/
theorem quoteKeysAfter_run {w : Text} (hw : ∀ d ∈ w, d ≠ '"' ∧ opensKey (some d) = false)
    (hl : opensKey last = false) :
    quoteKeysAfter last (w ++ rest) = w ++ quoteKeysAfter none rest := by
  induction w generalizing last with
  | nil => exact quoteKeysAfter_of_not_opens hl rest
  | cons d w ih =>
    rw [List.forall_mem_cons] at hw
    rw [List.cons_append, quoteKeysAfter_plain hw.1.1 (.inr hl), ih hw.2, List.cons_append]
    split
    · exact hl
    · exact hw.1.2

/-- White space is left alone and changes nothing. -/
theorem quoteKeysAfter_space (hc : isSpace c = true) :
    quoteKeysAfter last (c :: s) = c :: quoteKeysAfter last s := by
  have hspace : c ≠ '"' ∧ startsName c = false ∧ isKeySpace c = true := by
    simp only [isSpace, Bool.or_eq_true, beq_iff_eq] at hc
    rcases hc with ((rfl | rfl) | rfl) | rfl <;> decide
  obtain ⟨hq, hn, hs⟩ := hspace
  rw [quoteKeysAfter_plain hq (.inl hn), if_pos hs]

theorem quoteKeysAfter_gap {gap : Text} (hg : gap.all isSpace = true) :
    quoteKeysAfter last (gap ++ rest) = gap ++ quoteKeysAfter last rest := by
  induction gap with
  | nil => rfl
  | cons d gap ih =>
    rw [List.all_cons, Bool.and_eq_true] at hg
    rw [List.cons_append, quoteKeysAfter_space hg.1, ih hg.2]
    rfl

/-! ## Before the end of a value -/

theorem isIdentChar_of_isSpace (h : isSpace c = true) : isIdentChar c = false :=
  isIdentChar_of_isBlank (isBlank_of_isSpace h)

/-- What closes a value is neither an identifier nor a colon. -/
theorem Closes.endsHere (h : Closes rest) :
    Text.endsHere isIdentChar rest = true ∧ startsWith [':'] (trimStart rest) = false := by
  induction rest with
  | nil => exact ⟨rfl, rfl⟩
  | cons d rest ih =>
    cases hd : isSpace d with
    | true =>
      rw [trimStart, List.dropWhile_cons_of_pos (isBlank_of_isSpace hd), Text.endsHere,
        isIdentChar_of_isSpace hd]
      exact ⟨rfl, (ih ((closes_cons_of_isSpace hd).1 h)).2⟩
    | false =>
      have hmem : d ∈ [',', ']', '}'] := h d (by simp [hd])
      simp only [List.mem_cons, List.not_mem_nil, or_false] at hmem
      rcases hmem with rfl | rfl | rfl <;>
        exact ⟨rfl, by rw [trimStart_cons_of_not_blank (by decide)]; rfl⟩

theorem startsName_of_start (h : c.isDigit = true ∨ c = '-') : startsName c = false := by
  rw [Bool.eq_false_iff]
  intro hs
  rw [startsName, Bool.or_eq_true, isAlpha_iff, beq_iff_eq] at hs
  rcases h with h | rfl
  · rw [Char.isDigit_iff_toNat] at h
    change 48 ≤ c.toNat ∧ c.toNat ≤ 57 at h
    rcases hs with hs | rfl
    · omega
    · revert h
      decide
  · revert hs
    decide

/-- A numeral is left alone. -/
theorem quoteKeysAfter_numeral {w : Text} (hc : c.isDigit = true ∨ c = '-')
    (hw : ∀ d ∈ w, isNumeralChar d = true) :
    quoteKeysAfter last (c :: (w ++ rest)) = c :: (w ++ quoteKeysAfter none rest) := by
  have hnum : isNumeralChar c = true := by
    rcases hc with hc | rfl
    · simp [isNumeralChar, hc]
    · decide
  have hspace : isKeySpace c = false := by
    rw [Bool.eq_false_iff]
    intro hs
    simp only [isKeySpace, Bool.or_eq_true, beq_iff_eq] at hs
    rcases hs with (((rfl | rfl) | rfl) | rfl) | rfl <;> revert hnum <;> decide
  obtain ⟨hq, hquiet⟩ := quiet_of_isNumeralChar hnum
  rw [quoteKeysAfter_plain hq (.inl (startsName_of_start hc)), hspace, if_neg Bool.false_ne_true,
    quoteKeysAfter_run (fun d hd => quiet_of_isNumeralChar (hw d hd)) hquiet]

/-- Wherever something may stand after `last`, the scan makes `u` of the text `t`. -/
def QuotesTo (last : Option Char) (t u : Text) : Prop :=
  ∀ rest, Closes rest → quoteKeysAfter last (t ++ rest) = u ++ quoteKeysAfter none rest

/-- An identifier that is a value is left alone, as no colon follows it. -/
theorem quotesTo_name {w : Text} (hw : isName w = true) : QuotesTo last w w := by
  intro rest hr
  obtain ⟨hend, hcolon⟩ := hr.endsHere
  cases hl : opensKey last with
  | true => rw [quoteKeysAfter_name hw hl hend, hcolon, if_neg Bool.false_ne_true]
  | false =>
    exact quoteKeysAfter_run
      (fun d hd => quiet_of_isIdentChar (isIdentChar_of_mem_of_isName hw d hd)) hl

theorem isName_of_mem_literals {w : Text} {k : Token} (h : (w, k) ∈ literals) :
    isName w = true := by
  have hall : ∀ l ∈ literals, isName l.1 = true := by decide
  exact hall (w, k) h

end

/-! ## JSON proper -/

/-- **A text that is read as JSON proper** has no bare keys. -/
theorem Scans.quoteKeysAfter_eq {s : Text} {σ : State} {t : Tree} (h : Scans s σ t)
    (last : Option Char) : quoteKeysAfter last s = s := by
  induction h generalizing last with
  | done t => exact quoteKeysAfter_nil
  | space hc _ ih => rw [quoteKeysAfter_space hc, ih]
  | @token c s rest k σ τ t _ hk _ hstep hs ih =>
    have hat := tokenAt_of_token? hk
    generalize c :: s = s' at hat ⊢
    cases hat with
    | @mark d k rest hm =>
      have hmarks : ∀ m ∈ marks, m.1 ≠ '"' ∧ startsName m.1 = false := by decide
      obtain ⟨hq, hn⟩ := hmarks _ hm
      rw [quoteKeysAfter_plain hq (.inl hn), ih]
    | @literal w k rest hw =>
      obtain ⟨v, o, rfl⟩ := exists_complete_of_step? hw hstep
      rw [quotesTo_name (isName_of_mem_literals hw) rest hs.closes, ih]
    | string hraw => rw [quoteKeysAfter_string hraw, ih]
    | number n hnum =>
      obtain ⟨d, t, rfl, hd, w, rfl, hw⟩ := hnum
      rw [quoteKeysAfter_numeral hd hw, ih]

theorem Tree.quoteBareKeys_of_parse? {s : Text} {t : Tree} (h : Tree.parse? s = some t) :
    quoteBareKeys s = s :=
  (Tree.scans_of_parse? h).quoteKeysAfter_eq none

/-! ## Arrays and objects -/

section

variable {α : Type} {f g : α → Text} {xs : List α} {closing : Char}

theorem closes_tail (hc : closing = ']' ∨ closing = '}') (rest : Text) :
    Closes (xs.flatMap (fun x => ',' :: f x) ++ closing :: rest) := by
  cases xs with
  | nil => exact closes_cons_of_mem (by rcases hc with rfl | rfl <;> decide) rest
  | cons x xs => exact closes_cons_of_mem (by decide) _

theorem quoteKeysAfter_closing (hc : closing = ']' ∨ closing = '}') (last : Option Char)
    (rest : Text) :
    quoteKeysAfter last (closing :: rest) = closing :: quoteKeysAfter none rest := by
  have hclosing : closing ≠ '"' ∧ startsName closing = false ∧ isKeySpace closing = false ∧
      opensKey (some closing) = false := by rcases hc with rfl | rfl <;> decide
  obtain ⟨hq, hn, hs, hl⟩ := hclosing
  rw [quoteKeysAfter_plain hq (.inl hn), hs, if_neg Bool.false_ne_true,
    quoteKeysAfter_of_not_opens hl]

theorem quoteKeysAfter_opening {opening : Char} (ho : opening = '[' ∨ opening = '{')
    (last : Option Char) (rest : Text) : quoteKeysAfter last (opening :: rest) =
      opening :: quoteKeysAfter (some opening) rest := by
  have hopening : opening ≠ '"' ∧ startsName opening = false ∧ isKeySpace opening = false := by
    rcases ho with rfl | rfl <;> decide
  obtain ⟨hq, hn, hs⟩ := hopening
  rw [quoteKeysAfter_plain hq (.inl hn), hs, if_neg Bool.false_ne_true]

/-- What comes after the first item or field of a bracket. -/
theorem quoteKeysAfter_tail (hc : closing = ']' ∨ closing = '}')
    (h : ∀ x ∈ xs, QuotesTo (some ',') (f x) (g x)) (rest : Text) :
    quoteKeysAfter none (xs.flatMap (fun x => ',' :: f x) ++ closing :: rest) =
      xs.flatMap (fun x => ',' :: g x) ++ closing :: quoteKeysAfter none rest := by
  induction xs with
  | nil => exact quoteKeysAfter_closing hc none rest
  | cons x xs ih =>
    rw [List.forall_mem_cons] at h
    rw [List.flatMap_cons, List.flatMap_cons, List.append_assoc, List.append_assoc,
      List.cons_append, List.cons_append, quoteKeysAfter_plain (by decide) (.inr rfl)]
    exact congrArg (',' :: ·) ((h.1 _ (closes_tail hc rest)).trans (congrArg (g x ++ ·) (ih h.2)))

/-- **A bracket is scanned item by item**: after its opening and after each comma. -/
theorem quotesTo_layout {opening : Char} (ho : opening = '[' ∨ opening = '{')
    (hc : closing = ']' ∨ closing = '}')
    (h : ∀ x ∈ xs, QuotesTo (some opening) (f x) (g x) ∧ QuotesTo (some ',') (f x) (g x))
    (last : Option Char) : QuotesTo last (layout opening closing [] [] (xs.map f))
      (layout opening closing [] [] (xs.map g)) := by
  intro rest _
  cases xs with
  | nil =>
    have htext : ∀ x, layout opening closing [] [] [] ++ x = opening :: closing :: x :=
      fun _ => rfl
    rw [List.map_nil, List.map_nil, htext, htext, quoteKeysAfter_opening ho,
      quoteKeysAfter_closing hc]
  | cons x xs =>
    have htext : ∀ (f : α → Text) (y : Text), layout opening closing [] [] ((x :: xs).map f) ++ y =
        opening :: (f x ++ (xs.flatMap (fun x => ',' :: f x) ++ closing :: y)) := by
      simp [layout, List.flatMap_map]
    rw [List.forall_mem_cons] at h
    rw [htext, htext, quoteKeysAfter_opening ho, h.1.1 _ (closes_tail hc rest),
      quoteKeysAfter_tail hc fun y hy => (h.2 y hy).2]

/-- White space between brackets is left alone. -/
theorem quotesTo_empty {opening : Char} {gap : Text} (ho : opening = '[' ∨ opening = '{')
    (hc : closing = ']' ∨ closing = '}') (hg : gap.all isSpace = true) (last : Option Char) :
    QuotesTo last (opening :: (gap ++ [closing])) (opening :: (gap ++ [closing])) := by
  intro rest _
  have htext : ∀ x, opening :: (gap ++ [closing]) ++ x = opening :: (gap ++ closing :: x) := by simp
  rw [htext, htext, quoteKeysAfter_opening ho, quoteKeysAfter_gap hg, quoteKeysAfter_closing hc]

end

/-! ## Renderings with bare keys -/

/-- A key as a string of some kind, or bare. -/
def OrBare (string : Text → Text → Prop) (t k : Text) : Prop :=
  string t k ∨ (t = k ∧ isName k = true)

/-- A key as a JSON string, or bare. -/
def RelaxedKey (t k : Text) : Prop := JsonString t k ∨ (t = k ∧ isName k = true)

/-- Whatever stands around it, the scan makes `u` of the text `t`. -/
def Rewrites (t u : Text) : Prop :=
  ∀ last rest, quoteKeysAfter last (t ++ rest) = u ++ quoteKeysAfter none rest

theorem JsonString.rewrites {t s : Text} (h : JsonString t s) : Rewrites t t := by
  obtain ⟨raw, rfl, hraw⟩ := h
  intro last rest
  have htext : ∀ x, '"' :: raw ++ ['"'] ++ x = '"' :: (raw ++ '"' :: x) := by simp
  rw [htext, htext, quoteKeysAfter_string (raw_of_stringRest? (hraw.content [])).1]

theorem spelling_self {s : Text} (h : ∀ c ∈ s, isIdentChar c = true) : Spelling s s := by
  refine spelling_of_forall fun c hc => ⟨(quiet_of_isIdentChar (h c hc)).1, ?_, ?_⟩
  · rintro rfl
    exact absurd (h _ hc) (by decide)
  · have hident := h c hc
    rw [isIdentChar, Char.isAlphanum, Bool.or_eq_true, Bool.or_eq_true, isAlpha_iff,
      Char.isDigit_iff_toNat, beq_iff_eq] at hident
    rcases hident with hident | rfl
    · change (_ ∨ 48 ≤ c.toNat ∧ c.toNat ≤ 57) at hident
      omega
    · decide

/-- A bare key becomes a string of the same text. -/
theorem jsonString_of_isName {k : Text} (h : isName k = true) :
    JsonString ('"' :: k ++ ['"']) k :=
  ⟨k, rfl, spelling_self (isIdentChar_of_mem_of_isName h)⟩

/-- White space and a colon come after a key. -/
theorem colon_follows {gap : Text} (hg : gap.all isSpace = true) (rest : Text) :
    Text.endsHere isIdentChar (gap ++ ':' :: rest) = true ∧
      startsWith [':'] (trimStart (gap ++ ':' :: rest)) = true := by
  constructor
  · cases gap with
    | nil => rfl
    | cons c gap =>
      rw [List.all_cons, Bool.and_eq_true] at hg
      rw [List.cons_append, Text.endsHere, isIdentChar_of_isSpace hg.1]
      rfl
  · have hblank : allBlank gap = true := by
      rw [List.all_eq_true] at hg
      exact List.all_eq_true.2 fun c hc => isBlank_of_isSpace (hg c hc)
    rw [trimStart_append_of_allBlank hblank, trimStart_cons_of_not_blank (by decide)]
    rfl

section

variable {string string' : Text → Text → Prop}

/-- **A field with a bare key gets it quoted** where the scan knows that a key may stand. -/
theorem WrittenField.IsKeyed.exists_quotesTo {f : WrittenField} (hf : f.IsKeyed (OrBare string))
    (hs : ∀ t s, string t s → ∃ u, string' u s ∧ Rewrites t u)
    (hb : ∀ k, isName k = true → string' ('"' :: k ++ ['"']) k) {u : Text}
    (hu : ∀ last, QuotesTo last f.text u) : ∃ k, string' k f.key ∧ ∀ last, opensKey last = true →
      QuotesTo last f.full { f with keyText := k, text := u }.full := by
  have htext : ∀ (f : WrittenField) (x : Text), f.full ++ x =
      f.before ++ (f.keyText ++ (f.after ++ ':' :: (f.text ++ x))) := by simp [WrittenField.full]
  have hcolon : ∀ (last : Option Char) (rest : Text), Closes rest →
      quoteKeysAfter last (f.after ++ ':' :: (f.text ++ rest)) =
        f.after ++ ':' :: (u ++ quoteKeysAfter none rest) := by
    intro last rest hr
    rw [quoteKeysAfter_gap hf.after, quoteKeysAfter_plain (by decide) (.inl (by decide)),
      hu _ rest hr]
  rcases hf.key with hk | ⟨hbare, hk⟩
  · obtain ⟨k, hk, hrewrites⟩ := hs _ _ hk
    refine ⟨k, hk, fun last _ rest hr => ?_⟩
    rw [htext, htext, quoteKeysAfter_gap hf.before, hrewrites, hcolon none rest hr]
  · refine ⟨_, hb _ hk, fun last hl rest hr => ?_⟩
    obtain ⟨hend, hstart⟩ := colon_follows hf.after (f.text ++ rest)
    rw [htext, htext, quoteKeysAfter_gap hf.before, hbare, quoteKeysAfter_name hk hl hend,
      if_pos hstart, hcolon none rest hr]
    rfl

/-- **The scan goes string by string**: of a rendering with bare keys it makes one with their
quotes, in which each string is what the scan makes of it. -/
theorem Renders.exists_quotesTo_of_strings {t : Text} {v : Value}
    (h : Renders (OrBare string) string t v)
    (hs : ∀ t s, string t s → ∃ u, string' u s ∧ Rewrites t u)
    (hb : ∀ k, isName k = true → string' ('"' :: k ++ ['"']) k) :
    ∃ u, Renders string' string' u v ∧ ∀ last, QuotesTo last t u := by
  induction h with
  | null =>
    exact ⟨_, .null, fun _ => quotesTo_name (by decide)⟩
  | bool b =>
    exact ⟨_, .bool b, fun _ => quotesTo_name (by cases b <;> decide)⟩
  | int k =>
    refine ⟨_, .int k, fun last rest _ => ?_⟩
    have hstops : Stops [] := by simp [Stops]
    have hread := numeral?_render k hstops
    rw [List.append_nil] at hread
    obtain ⟨c, s, hs, hc, w, rfl, hw⟩ := startsNumeral_of_numeral? hread
    rw [List.append_nil] at hs
    rw [hs]
    exact quoteKeysAfter_numeral hc hw
  | string h =>
    obtain ⟨u, hu, hrewrites⟩ := hs _ _ h
    exact ⟨u, .string hu, fun last rest _ => hrewrites last rest⟩
  | emptyArray hg => exact ⟨_, .emptyArray hg, quotesTo_empty (.inl rfl) (.inl rfl) hg⟩
  | @array items _ ih =>
    choose! text hrenders hquotes using ih
    exact ⟨_, .array_map hrenders,
      quotesTo_layout (.inl rfl) (.inl rfl) fun i hi => ⟨hquotes i hi _, hquotes i hi _⟩⟩
  | emptyObject hg => exact ⟨_, .emptyObject hg, quotesTo_empty (.inr rfl) (.inr rfl) hg⟩
  | @object fields hf _ ih =>
    choose! text hrenders hquotes using ih
    choose! keyText hkey hfield using fun f h => (hf f h).exists_quotesTo hs hb (hquotes f h)
    let quoted : WrittenField → WrittenField :=
      fun f => { f with keyText := keyText f, text := text f }
    have hkeyed : ∀ f ∈ fields, (quoted f).IsKeyed string' :=
      fun f h => ⟨(hf f h).before, (hf f h).after, hkey f h⟩
    have hobject := Renders.object_map hkeyed hrenders
    exact ⟨_, hobject, quotesTo_layout (.inr rfl) (.inr rfl) fun f h =>
      ⟨hfield f h _ rfl, hfield f h _ rfl⟩⟩
  | @spaceBefore c t v hc _ ih =>
    obtain ⟨u, hu, hquotes⟩ := ih
    refine ⟨_, .spaceBefore hc hu, fun last rest hr => ?_⟩
    rw [List.cons_append, quoteKeysAfter_space hc, hquotes last rest hr, List.cons_append]
  | @spaceAfter c t v hc _ ih =>
    obtain ⟨u, hu, hquotes⟩ := ih
    refine ⟨_, .spaceAfter hc hu, fun last rest hr => ?_⟩
    rw [List.append_assoc, List.append_assoc, List.singleton_append, List.singleton_append,
      hquotes last (c :: rest) ((closes_cons_of_isSpace hc).2 hr), quoteKeysAfter_space hc]

end

/-- **The scan makes JSON proper of every rendering with bare keys**, whatever may follow it. -/
theorem Renders.exists_quotesTo {t : Text} {v : Value} (h : Renders RelaxedKey JsonString t v) :
    ∃ u, Renders JsonString JsonString u v ∧ ∀ last, QuotesTo last t u :=
  h.exists_quotesTo_of_strings (fun t _ ht => ⟨t, ht, ht.rewrites⟩) fun _ => jsonString_of_isName

/-! ## Reading -/

theorem parseRelaxed_of_trim {t : Text} {v : Value} (hne : trim t ≠ [])
    (hread : Value.parse? (trim t) = none ∨ Value.parse? (trim t) = some v)
    (hquoted : Value.parse? (quoteBareKeys (trim t)) = some v) : parseRelaxed t = .ok v := by
  rw [parseRelaxed]
  simp only [List.isEmpty_iff, if_neg hne, hquoted]
  rcases hread with hread | hread <;> rw [hread] <;> rfl

/-- **Relaxed JSON is read as it is written.** A value of integers that is not nested too deep is
read from each of its texts, whatever white space stands between the tokens, however the strings are
spelled and whichever identifiers among the keys are bare; its compact text is one of them. -/
theorem parseRelaxed_of_renders {v : Value} (hv : v.Regular) (hd : v.depth ≤ maxDepth) :
    (∀ t, Renders RelaxedKey JsonString t v → parseRelaxed t = .ok v) ∧
      (∀ t, Renders JsonString JsonString t v → parseRelaxed t = .ok v) ∧
      parseRelaxed v.compact = .ok v := by
  have hrelaxed : ∀ t, Renders RelaxedKey JsonString t v → parseRelaxed t = .ok v := by
    intro t h
    obtain ⟨htrim, hne⟩ := h.trim fun _ _ => JsonString.trim
    obtain ⟨u, hu, hquotes⟩ := htrim.exists_quotesTo
    have hquoted : quoteBareKeys (trim t) = u := by
      have h := hquotes none [] (by simp [Closes])
      rwa [List.append_nil, quoteKeysAfter_nil, List.append_nil] at h
    have hparse : Value.parse? (quoteBareKeys (trim t)) = some v := by
      rw [hquoted]
      exact Value.parse?_of_renders hu hv hd
    refine parseRelaxed_of_trim hne ?_ hparse
    cases hread : Value.parse? (trim t) with
    | none => exact .inl rfl
    | some w =>
      -- nothing was bare, so the two readings are of one text
      obtain ⟨tree, htree, -⟩ := Option.bind_eq_some_iff.1 hread
      rw [Tree.quoteBareKeys_of_parse? htree, hread] at hparse
      exact .inr hparse
  have hstrict : ∀ t, Renders JsonString JsonString t v → parseRelaxed t = .ok v :=
    fun t h => hrelaxed t (h.mono (fun _ _ => .inl) fun _ _ => id)
  exact ⟨hrelaxed, hstrict, hstrict _ (Value.renders_compact hv)⟩

/-- An object with a bare key and a quoted one. -/
def parcel : Value :=
  .object [("id".toList, .array [.number (.int 1), .null]), ("a b".toList, .string "A".toList)]

/-- Its fields as they may be written, with white space and an escape. -/
def parcelFields : List WrittenField :=
  [⟨[], "id".toList, [' '], ' ' :: "[1, null]".toList, "id".toList,
      .array [.number (.int 1), .null]⟩,
    ⟨['\n', ' '], "\"a b\"".toList, [], "\"\\u0041\"".toList, "a b".toList, .string "A".toList⟩]

/-- The text of them. -/
def parcelText : Text := "\x7bid : [1, null],\n \"a b\":\"\\u0041\"\x7d".toList

theorem renders_parcelText : Renders RelaxedKey JsonString parcelText parcel := by
  have hid : Renders RelaxedKey JsonString (' ' :: "[1, null]".toList)
      (.array [.number (.int 1), .null]) := by
    have hone : Renders RelaxedKey JsonString (Number.int 1).render (.number (.int 1)) := .int 1
    have hnull : Renders RelaxedKey JsonString (' ' :: "null".toList) .null :=
      .spaceBefore rfl .null
    have hitems : ∀ i ∈ [((Number.int 1).render, Value.number (.int 1)),
        (' ' :: "null".toList, .null)], Renders RelaxedKey JsonString i.1 i.2 := by
      simpa using ⟨hone, hnull⟩
    exact .spaceBefore rfl (.array hitems)
  have hstring : JsonString "\"\\u0041\"".toList "A".toList :=
    ⟨"\\u0041".toList, by decide, .code (x := 'A') (by decide) .nil⟩
  have hkey : JsonString "\"a b\"".toList "a b".toList := by
    have hprinted : renderString "a b".toList = "\"a b\"".toList := by decide
    rw [← hprinted]
    exact jsonString_renderString _
  have hkeyed : ∀ f ∈ parcelFields, f.IsKeyed RelaxedKey := by
    simpa [parcelFields] using ⟨⟨rfl, rfl, .inr ⟨rfl, rfl⟩⟩, ⟨rfl, rfl, .inl hkey⟩⟩
  have hvalues : ∀ f ∈ parcelFields, Renders RelaxedKey JsonString f.text f.value := by
    simpa [parcelFields] using ⟨hid, .string hstring⟩
  exact Renders.object hkeyed hvalues

theorem parseRelaxed_parcelText : parcel.Regular ∧ parcel.depth ≤ maxDepth ∧
    parseRelaxed parcelText = .ok parcel := by
  have hv : parcel.Regular := by decide
  have hd : parcel.depth ≤ maxDepth := by decide
  exact ⟨hv, hd, (parseRelaxed_of_renders hv hd).1 parcelText renders_parcelText⟩

end SpecHarvest.Json
