import SpecHarvest.Proofs.Json.Scan
import SpecHarvest.Proofs.Source.Literal
import SpecHarvest.Proofs.Text.Blank

/-!
# What the reader accepts

A text that is read as JSON has been read token by token.

* `TokenAt s k rest`: the text `s` starts with the token `k`, by the characters of the token, and
  `tokenAt_of_token?` says that nothing else is taken for one.
* `Tree.scans_of_parse?`: a text that spells a tree is scanned to its end.
* `Scans.closes`: after a value comes a comma, a closing bracket or the end of the text (`Closes`).
-/

namespace SpecHarvest.Json

open Source

/-! ## Numerals -/

/-- The characters of numerals. -/
def isNumeralChar (c : Char) : Bool :=
  c.isDigit || c == '-' || c == '+' || c == '.' || c == 'e' || c == 'E'

/-- What is left of a text after characters of numerals. -/
def PassesNumeral (s rest : Text) : Prop := ∃ w, s = w ++ rest ∧ ∀ c ∈ w, isNumeralChar c = true

theorem PassesNumeral.refl (s : Text) : PassesNumeral s s := ⟨[], rfl, by simp⟩

theorem PassesNumeral.trans {s t u : Text} (h : PassesNumeral s t) (h' : PassesNumeral t u) :
    PassesNumeral s u := by
  obtain ⟨w, rfl, hw⟩ := h
  obtain ⟨w', rfl, hw'⟩ := h'
  exact ⟨w ++ w', by simp, List.forall_mem_append.2 ⟨hw, hw'⟩⟩

theorem PassesNumeral.cons {c : Char} {s rest : Text} (hc : isNumeralChar c = true)
    (h : PassesNumeral s rest) : PassesNumeral (c :: s) rest := by
  obtain ⟨w, rfl, hw⟩ := h
  exact ⟨c :: w, rfl, List.forall_mem_cons.2 ⟨hc, hw⟩⟩

/-- A text starts with a character of a class and goes on with characters of numerals. -/
def StartsNumeral (start : Char → Prop) (s rest : Text) : Prop :=
  ∃ c t, s = c :: t ∧ start c ∧ PassesNumeral t rest

theorem StartsNumeral.passes {s rest : Text} (h : StartsNumeral (·.isDigit = true) s rest) :
    PassesNumeral s rest := by
  obtain ⟨c, t, rfl, hc, ht⟩ := h
  exact ht.cons (by simp [isNumeralChar, hc])

theorem startsNumeral_of_digits? {s ds rest : Text} (h : digits? s = some (ds, rest)) :
    StartsNumeral (·.isDigit = true) s rest := by
  simp only [digits?] at h
  split at h
  · cases h
  · next hne =>
    obtain ⟨-, rfl⟩ := Prod.mk.inj (Option.some.inj h)
    cases s with
    | nil => exact absurd rfl hne
    | cons c s =>
      cases hc : c.isDigit with
      | false => simp [hc] at hne
      | true =>
        refine ⟨c, s, rfl, hc, s.takeWhile Char.isDigit, ?_, fun d hd => ?_⟩
        · rw [List.dropWhile_cons_of_pos hc, List.takeWhile_append_dropWhile]
        · simp [isNumeralChar, List.mem_takeWhile_imp hd]

theorem startsNumeral_of_wholePart? {s ds rest : Text} (h : wholePart? s = some (ds, rest)) :
    StartsNumeral (·.isDigit = true) s rest := by
  unfold wholePart? at h
  split at h
  · split at h
    · obtain ⟨-, rfl⟩ := Prod.mk.inj (Option.some.inj h)
      exact ⟨'0', _, rfl, by decide, .refl _⟩
    · cases h
  · exact startsNumeral_of_digits? h

theorem passesNumeral_of_fractionPart? {s ds rest : Text}
    (h : fractionPart? s = some (ds, rest)) : PassesNumeral s rest := by
  unfold fractionPart? at h
  split at h
  · exact (startsNumeral_of_digits? h).passes.cons (by decide)
  · obtain ⟨-, rfl⟩ := Prod.mk.inj (Option.some.inj h)
    exact .refl _

theorem passesNumeral_of_exponentPart? {s rest : Text} {e : Option (Bool × Text)}
    (h : exponentPart? s = some (e, rest)) : PassesNumeral s rest := by
  unfold exponentPart? at h
  split at h
  · next c s =>
    split at h
    · next hc =>
      refine .cons (by rcases hc with rfl | rfl <;> decide) ?_
      split at h
      all_goals
        obtain ⟨⟨ds, r⟩, hd, he⟩ := Option.map_eq_some_iff.1 h
        obtain ⟨-, rfl⟩ := Prod.mk.inj he
        have hdigits := (startsNumeral_of_digits? hd).passes
      · exact hdigits.cons (by decide)
      · exact hdigits.cons (by decide)
      · exact hdigits
    · obtain ⟨-, rfl⟩ := Prod.mk.inj (Option.some.inj h)
      exact .refl _
  · obtain ⟨-, rfl⟩ := Prod.mk.inj (Option.some.inj h)
    exact .refl _

theorem startsNumeral_of_unsigned? {negative : Bool} {s rest : Text} {n : Numeral}
    (h : unsigned? negative s = some (n, rest)) : StartsNumeral (·.isDigit = true) s rest := by
  simp only [unsigned?, Option.bind_eq_bind, Option.bind_eq_some_iff] at h
  obtain ⟨⟨whole, s₁⟩, hw, ⟨fraction, s₂⟩, hf, ⟨exponent, s₃⟩, he, hn⟩ := h
  obtain ⟨-, rfl⟩ := Prod.mk.inj (Option.some.inj hn)
  obtain ⟨c, t, rfl, hc, ht⟩ := startsNumeral_of_wholePart? hw
  exact ⟨c, t, rfl, hc,
    (ht.trans (passesNumeral_of_fractionPart? hf)).trans (passesNumeral_of_exponentPart? he)⟩

/-- A numeral starts with a digit or a minus. -/
theorem startsNumeral_of_numeral? {s rest : Text} {n : Numeral}
    (h : numeral? s = some (n, rest)) :
    StartsNumeral (fun c => c.isDigit = true ∨ c = '-') s rest := by
  unfold numeral? at h
  split at h
  · exact ⟨'-', _, rfl, .inr rfl, (startsNumeral_of_unsigned? h).passes⟩
  · obtain ⟨c, t, rfl, hc, ht⟩ := startsNumeral_of_unsigned? h
    exact ⟨c, t, rfl, .inl hc, ht⟩

/-! ## Strings -/

theorem not_mem_of_hexQuad? {a b c d x : Char} {n : Nat} (h : hexQuad? a b c d = some n)
    (hx : hexValue? x = none) : x ∉ [a, b, c, d] := by
  simp only [hexQuad?, Option.bind_eq_bind, Option.bind_eq_some_iff] at h
  obtain ⟨i, ha, j, hb, k, hc, l, hd, -⟩ := h
  have hne : ∀ {y : Char} {m : Nat}, hexValue? y = some m → x ≠ y := by
    rintro y m hy rfl
    rw [hx] at hy
    cases hy
  simp [hne ha, hne hb, hne hc, hne hd]

theorem ne_of_hexQuad? {a b c d : Char} {n : Nat} (h : hexQuad? a b c d = some n) :
    ∀ x ∈ [a, b, c, d], x ≠ '"' ∧ x ≠ '\\' := by
  intro x hx
  constructor <;> rintro rfl <;> exact not_mem_of_hexQuad? h (by decide) hx

/-- **A string ends at the quote that would close it as a literal of the test language.** -/
theorem raw_of_stringRest? {s raw rest : Text} (h : stringRest? s = some (raw, rest)) :
    Raw raw ∧ s = raw ++ '"' :: rest := by
  fun_induction stringRest? s generalizing raw with
  | case1 => cases h
  | case2 a b c d s n hn ih =>
    obtain ⟨⟨r, t⟩, hr, he⟩ := Option.map_eq_some_iff.1 h
    obtain ⟨rfl, rfl⟩ := Prod.mk.inj he
    obtain ⟨hraw, rfl⟩ := ih hr
    have hne := ne_of_hexQuad? hn
    simp only [List.forall_mem_cons, List.not_mem_nil, false_imp_iff, implies_true,
      and_true] at hne
    obtain ⟨ha, hb, hc, hd⟩ := hne
    exact ⟨.escaped 'u' (.plain ha.1 ha.2 (.plain hb.1 hb.2 (.plain hc.1 hc.2
      (.plain hd.1 hd.2 hraw)))), rfl⟩
  | case3 => cases h
  | case4 e s _ c hc ih =>
    obtain ⟨⟨r, t⟩, hr, he⟩ := Option.map_eq_some_iff.1 h
    obtain ⟨rfl, rfl⟩ := Prod.mk.inj he
    obtain ⟨hraw, rfl⟩ := ih hr
    exact ⟨.escaped e hraw, rfl⟩
  | case5 => cases h
  | case6 s =>
    obtain ⟨rfl, rfl⟩ := Prod.mk.inj (Option.some.inj h)
    exact ⟨.nil, rfl⟩
  | case7 => cases h
  | case8 c s _ _ hq hc ih =>
    obtain ⟨⟨r, t⟩, hr, he⟩ := Option.map_eq_some_iff.1 h
    obtain ⟨rfl, rfl⟩ := Prod.mk.inj he
    obtain ⟨hraw, rfl⟩ := ih hr
    exact ⟨.plain hq (fun hb => hc (.inl hb)) hraw, rfl⟩

/-! ## Tokens -/

/-- The brackets and marks. -/
def marks : List (Char × Token) :=
  [('[', .openArray), (']', .closeArray), ('{', .openObject), ('}', .closeObject), (',', .comma),
    (':', .colon)]

/-- The words. -/
def literals : List (Text × Token) :=
  [("null".toList, .null), ("true".toList, .bool true), ("false".toList, .bool false)]

/-- A text starts with a token, and what is left after it. -/
inductive TokenAt : Text → Token → Text → Prop
  | mark {c : Char} {k : Token} {rest : Text} : (c, k) ∈ marks → TokenAt (c :: rest) k rest
  | literal {w : Text} {k : Token} {rest : Text} : (w, k) ∈ literals → TokenAt (w ++ rest) k rest
  | string {raw rest : Text} : Raw raw → TokenAt ('"' :: (raw ++ '"' :: rest)) (.string raw) rest
  | number {s rest : Text} (n : Numeral) :
    StartsNumeral (fun c => c.isDigit = true ∨ c = '-') s rest → TokenAt s (.number n) rest

theorem tokenAt_of_token? {s rest : Text} {k : Token} (h : token? s = some (k, rest)) :
    TokenAt s k rest := by
  unfold token? at h
  split at h
  case h_7 s =>
    obtain ⟨⟨raw, r⟩, hr, he⟩ := Option.map_eq_some_iff.1 h
    obtain ⟨rfl, rfl⟩ := Prod.mk.inj he
    obtain ⟨hraw, rfl⟩ := raw_of_stringRest? hr
    exact .string hraw
  case h_11 =>
    obtain ⟨⟨n, r⟩, hn, he⟩ := Option.map_eq_some_iff.1 h
    obtain ⟨rfl, rfl⟩ := Prod.mk.inj he
    exact .number n (startsNumeral_of_numeral? hn)
  all_goals obtain ⟨rfl, rfl⟩ := Prod.mk.inj (Option.some.inj h)
  case h_8 => exact .literal (w := "null".toList) (by decide)
  case h_9 => exact .literal (w := "true".toList) (by decide)
  case h_10 => exact .literal (w := "false".toList) (by decide)
  all_goals exact .mark (by decide)

theorem TokenAt.length_lt {s rest : Text} {k : Token} (h : TokenAt s k rest) :
    rest.length < s.length := by
  cases h with
  | mark _ => exact Nat.lt_succ_self _
  | @literal w k rest hw =>
    have hpos : ∀ l ∈ literals, 0 < l.1.length := by decide
    have hw := hpos (w, k) hw
    simp only [List.length_append] at hw ⊢
    omega
  | string _ =>
    simp only [List.length_cons, List.length_append]
    omega
  | number n hs =>
    obtain ⟨c, t, rfl, -, w, rfl, -⟩ := hs
    simp only [List.length_cons, List.length_append]
    omega

/-- A string is shorter than the token that holds it. -/
theorem TokenAt.length_raw_lt {s raw rest : Text} (h : TokenAt s (.string raw) rest) :
    raw.length < s.length := by
  cases h with
  | mark hm => simp [marks] at hm
  | literal hw => simp [literals] at hw
  | string _ =>
    simp only [List.length_cons, List.length_append]
    omega

/-! ## Whole texts -/

/-- A text of white space alone is read to its end. -/
theorem scans_of_dropWhile_eq_nil {s : Text} (h : s.dropWhile isSpace = []) (t : Tree) :
    Scans s (.complete t []) t := by
  have hs : s.all isSpace = true := List.all_eq_true.2 (List.dropWhile_eq_nil_iff.1 h)
  rw [← List.append_nil s]
  exact .spaces hs (.done t)

theorem scans_of_go {n : Nat} {s : Text} {ks : List Token} {σ : State} {t : Tree}
    (hks : tokens?.go n s = some ks) (h : ks.foldlM step? σ = some (.complete t [])) :
    Scans s σ t := by
  induction n generalizing s ks σ with
  | zero =>
    rw [tokens?.go] at hks
    split at hks
    · next hs =>
      obtain rfl := Option.some.inj hks
      obtain rfl := Option.some.inj h
      exact scans_of_dropWhile_eq_nil (List.isEmpty_iff.1 hs) t
    · cases hks
  | succ n ih =>
    rw [tokens?.go] at hks
    split at hks
    · next hs =>
      obtain rfl := Option.some.inj hks
      obtain rfl := Option.some.inj h
      exact scans_of_dropWhile_eq_nil hs t
    · next c r hs =>
      obtain ⟨⟨k, rest⟩, hk, hks⟩ := Option.bind_eq_some_iff.1 hks
      obtain ⟨ks, hgo, rfl⟩ := Option.map_eq_some_iff.1 hks
      rw [List.foldlM_cons, Option.bind_eq_bind, Option.bind_eq_some_iff] at h
      obtain ⟨τ, hτ, h⟩ := h
      have hc : isSpace c = false := by
        have hd := List.head?_dropWhile_not isSpace s
        rw [hs] at hd
        simpa using hd
      have hlen := (tokenAt_of_token? hk).length_lt
      rw [List.length_cons] at hlen
      rw [← List.takeWhile_append_dropWhile (p := isSpace) (l := s), hs]
      exact .spaces List.all_takeWhile (.token hc hk (Nat.le_of_lt_succ hlen) hτ (ih hgo h))

/-- **A text that spells a tree** is read token by token to its end. -/
theorem Tree.scans_of_parse? {s : Text} {t : Tree} (h : Tree.parse? s = some t) :
    Scans s (.value []) t := by
  simp only [Tree.parse?, Option.bind_eq_bind, Option.bind_eq_some_iff] at h
  obtain ⟨ks, hks, σ, hσ, h⟩ := h
  split at h
  · obtain rfl := Option.some.inj h
    exact scans_of_go hks hσ
  · cases h

/-! ## After a value -/

/-- A word is a value of its own. -/
theorem exists_complete_of_step? {w : Text} {σ τ : State} {k : Token} (hw : (w, k) ∈ literals)
    (h : step? σ k = some τ) : ∃ v o, τ = .complete v o := by
  have hk : k = .null ∨ ∃ b, k = .bool b := by
    simp only [literals, List.mem_cons, Prod.mk.injEq, List.not_mem_nil, or_false] at hw
    rcases hw with ⟨-, rfl⟩ | ⟨-, rfl⟩ | ⟨-, rfl⟩ <;> simp
  rcases hk with rfl | ⟨b, rfl⟩
  all_goals
    cases σ with
    | value o => exact ⟨_, _, (Option.some.inj h).symm⟩
    | item o => exact ⟨_, _, (Option.some.inj h).symm⟩
    | complete v o => rcases o with _ | ⟨_ | _, o⟩ <;> cases h
    | _ => cases h

/-- A text goes on, after white space, with a comma or a closing bracket, if it goes on at all. -/
def Closes (s : Text) : Prop := ∀ c ∈ (s.dropWhile isSpace).head?, c ∈ [',', ']', '}']

theorem closes_cons_of_isSpace {c : Char} {s : Text} (hc : isSpace c = true) :
    Closes (c :: s) ↔ Closes s := by
  rw [Closes, Closes, List.dropWhile_cons_of_pos hc]

theorem closes_cons_of_mem {c : Char} (hc : c ∈ [',', ']', '}']) (s : Text) : Closes (c :: s) := by
  have hs : isSpace c = false := by
    simp only [List.mem_cons, List.not_mem_nil, or_false] at hc
    rcases hc with rfl | rfl | rfl <;> decide
  intro d hd
  rw [List.dropWhile_cons_of_neg (by simp [hs])] at hd
  obtain rfl : c = d := Option.some.inj hd
  exact hc

/-- The tokens that may follow a value. -/
def closers : List Token := [.comma, .closeArray, .closeObject]

theorem mem_closers_of_step? {v : Tree} {o : List Frame} {k : Token} {τ : State}
    (h : step? (.complete v o) k = some τ) : k ∈ closers := by
  cases k with
  | comma | closeArray | closeObject => decide
  | _ => rcases o with _ | ⟨_ | _, o⟩ <;> cases h

theorem TokenAt.closes {s rest : Text} {k : Token} (h : TokenAt s k rest) (hk : k ∈ closers) :
    Closes s := by
  have hmarks : ∀ m ∈ marks, m.2 ∈ closers → m.1 ∈ [',', ']', '}'] := by decide
  have hliterals : ∀ l ∈ literals, l.2 ∉ closers := by decide
  cases h with
  | mark hm => exact closes_cons_of_mem (hmarks _ hm hk) rest
  | literal hw => exact absurd hk (hliterals _ hw)
  | string _ => simp [closers] at hk
  | number n _ => simp [closers] at hk

/-- **After a value** there is nothing but a comma, a closing bracket or the end. -/
theorem Scans.closes {s : Text} {v t : Tree} {o : List Frame} (h : Scans s (.complete v o) t) :
    Closes s := by
  generalize hσ : State.complete v o = σ at h
  induction h with
  | done t => simp [Closes]
  | space hc _ ih => exact (closes_cons_of_isSpace hc).2 (ih hσ)
  | token _ hk _ hstep _ _ =>
    subst hσ
    exact (tokenAt_of_token? hk).closes (mem_closers_of_step? hstep)

end SpecHarvest.Json
