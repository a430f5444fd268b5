import SpecHarvest.Proofs.Json.Relaxed
import SpecHarvest.Proofs.Json.Stuck
import SpecHarvest.Proofs.Text.Occurrence

/-!
# Single quotes in relaxed JSON

What is no JSON with its bare keys quoted is read once more with every apostrophe made a quote,
those of JSON strings as well.

* `SingleQuoted t s`: the text `s` between single quotes. In it the scan for bare keys finds keys,
  too (`SingleQuoted.rewrites`).
* `SingleQuoted.requoted`: with its apostrophes made quotes it is a JSON string, or keys were found
  and it blocks. `JsonString.requoted`: a JSON string stays as it is, or it blocks if its text
  `jams`.
* `parseRelaxed_eq`: so a text is read in two attempts, with its keys quoted and with its
  apostrophes made quotes, and each of them gives the value or nothing.
* `parseRelaxed_of_singleQuotes`: when a value is read from its texts with single quotes.
  `not_parseRelaxed_of_singleQuotes`: an apostrophe in a JSON string may be taken for its end, so
  that another value is read.
-/

namespace SpecHarvest.Json

open Text

/-! ## The scan of a string between single quotes -/

section

variable {last : Option Char} {s : Text}

/-- An apostrophe ends an identifier, and no colon stands before it. -/
theorem name_before_apostrophe (s rest : Text) :
    (s ++ '\x27' :: rest).takeWhile isIdentChar = s.takeWhile isIdentChar ∧
      (s ++ '\x27' :: rest).dropWhile isIdentChar = s.dropWhile isIdentChar ++ '\x27' :: rest := by
  induction s with
  | nil => exact ⟨rfl, rfl⟩
  | cons c s ih =>
    rw [List.cons_append]
    cases hc : isIdentChar c with
    | true => simp [hc, ih]
    | false => simp [hc]

theorem startsWith_colon_append_apostrophe (s rest : Text) :
    startsWith [':'] (trimStart (s ++ '\x27' :: rest)) = startsWith [':'] (trimStart s) := by
  induction s with
  | nil => rfl
  | cons c s ih =>
    rw [List.cons_append]
    cases hc : isBlank c with
    | true =>
      rw [trimStart, trimStart, List.dropWhile_cons_of_pos hc, List.dropWhile_cons_of_pos hc]
      exact ih
    | false =>
      rw [trimStart_cons_of_not_blank hc, trimStart_cons_of_not_blank hc,
        startsWith_singleton_cons, startsWith_singleton_cons]

/-- **The scan stops at an apostrophe** and goes on after it, where no key may stand. -/
theorem quoteKeysAfter_append_apostrophe (hs : '"' ∉ s) (rest : Text) :
    quoteKeysAfter last (s ++ '\x27' :: rest) =
      quoteKeysAfter last s ++ '\x27' :: quoteKeysAfter none rest := by
  fun_induction quoteKeysAfter last s with
  | case1 last =>
    have hspace : isKeySpace '\x27' = false := by decide
    rw [List.nil_append, quoteKeysAfter_plain (by decide) (.inl (by decide)), hspace,
      if_neg Bool.false_ne_true, quoteKeysAfter_of_not_opens (by decide)]
    rfl
  | case2 => simp at hs
  | case3 => simp at hs
  | case4 last c s hq hn name r ih =>
    have hr : '"' ∉ r := fun h => hs (List.mem_cons_of_mem c (List.dropWhile_sublist _ |>.mem h))
    obtain ⟨htake, hdrop⟩ := name_before_apostrophe s rest
    rw [List.cons_append, quoteKeysAfter, if_neg hq, if_pos hn]
    simp only [htake, hdrop]
    rw [startsWith_colon_append_apostrophe, ih hr, List.append_assoc]
  | case5 last c s hq hn ih =>
    simp only [dite_eq_ite] at ih
    have hs' : '"' ∉ s := fun h => hs (List.mem_cons_of_mem c h)
    rw [List.cons_append, quoteKeysAfter, if_neg hq, if_neg hn, ih hs', List.cons_append]

/-- **A scanned text** is as it was, or has a quote before an identifier. -/
theorem quoteKeysAfter_eq_or (last : Option Char) (hs : '"' ∉ s) : quoteKeysAfter last s = s ∨
    ∃ pre c post, quoteKeysAfter last s = pre ++ '"' :: c :: post ∧ startsName c = true ∧
      pre ⊆ s := by
  fun_induction quoteKeysAfter last s with
  | case1 last => exact .inl rfl
  | case2 => simp at hs
  | case3 => simp at hs
  | case4 last c s hq hn name r ih =>
    have hr : '"' ∉ r := fun h => hs (List.mem_cons_of_mem c (List.dropWhile_sublist _ |>.mem h))
    have hsplit : c :: s = name ++ r := by simp [name, r]
    split
    · have hc : startsName c = true := (Bool.and_eq_true_iff.1 hn).1
      exact .inr ⟨[], c, _, rfl, hc, List.nil_subset _⟩
    · rw [hsplit]
      rcases ih hr with h | ⟨pre, d, post, h, hd, hpre⟩
      · exact .inl (by rw [h])
      · exact .inr ⟨name ++ pre, d, post, by rw [h, List.append_assoc], hd,
          List.append_subset.2
            ⟨List.subset_append_left _ _, List.Subset.trans hpre (List.subset_append_right _ _)⟩⟩
  | case5 last c s hq hn ih =>
    simp only [dite_eq_ite] at ih
    have hs' : '"' ∉ s := fun h => hs (List.mem_cons_of_mem c h)
    rcases ih hs' with h | ⟨pre, d, post, h, hd, hpre⟩
    · exact .inl (by rw [h])
    · exact .inr ⟨c :: pre, d, post, by rw [h, List.cons_append], hd, List.cons_subset_cons c hpre⟩

end

/-! ## Strings -/

/-- A text between single quotes, without quotes, backslashes and control characters. -/
def SingleQuoted (t s : Text) : Prop :=
  t = '\x27' :: s ++ ['\x27'] ∧ ∀ c ∈ s, c ≠ '"' ∧ c ≠ '\x27' ∧ c ≠ '\\' ∧ 0x20 ≤ c.toNat

/-- A JSON string, or a text between single quotes. -/
def AnyString (t s : Text) : Prop := JsonString t s ∨ SingleQuoted t s

/-- Whether no string may go on as a text does after its first apostrophe, if it has any. -/
def jams (t : Text) : Bool :=
  match t.dropWhile (· != '\x27') with
  | _ :: c :: _ => !followsString c
  | _ => true

/-- A JSON string that does not go on properly after its first apostrophe, or a text between single
quotes. -/
def JammingString (t s : Text) : Prop := (JsonString t s ∧ jams t = true) ∨ SingleQuoted t s

/-- A JSON string without apostrophes, or a text between single quotes in which the scan finds no
key. -/
def PlainString (t s : Text) : Prop :=
  (JsonString t s ∧ '\x27' ∉ t) ∨ (SingleQuoted t s ∧ quoteBareKeys s = s)

theorem ne_apostrophe_of_not_mem {t : Text} (h : '\x27' ∉ t) :
    ∀ c ∈ t, (c != '\x27') = true := by
  intro c hc
  exact bne_iff_ne.2 fun he => h (he ▸ hc)

theorem jams_of_not_mem {t : Text} (h : '\x27' ∉ t) : jams t = true := by
  rw [jams, List.dropWhile_eq_nil_iff.2 (ne_apostrophe_of_not_mem h)]

theorem jams_append {pre : Text} (h : '\x27' ∉ pre) (c : Char) (post : Text) :
    jams (pre ++ '\x27' :: c :: post) = !followsString c := by
  rw [jams, List.dropWhile_append_of_pos (ne_apostrophe_of_not_mem h)]
  rfl

section

variable {t s : Text}

theorem PlainString.jamming (h : PlainString t s) : JammingString t s :=
  h.imp (fun h => ⟨h.1, jams_of_not_mem h.2⟩) And.left

theorem JammingString.any (h : JammingString t s) : AnyString t s := h.imp_left And.left

theorem AnyString.trim (h : AnyString t s) : Text.trim t = t ∧ t ≠ [] := by
  rcases h with h | ⟨rfl, -⟩
  · exact h.trim
  · exact ⟨trim_cons_append_singleton (by decide) (by decide) s, List.cons_ne_nil _ _⟩

theorem SingleQuoted.spelling (h : SingleQuoted t s) : Spelling s s :=
  spelling_of_forall fun c hc => ⟨(h.2 c hc).1, (h.2 c hc).2.2⟩

theorem SingleQuoted.not_mem (h : SingleQuoted t s) : '"' ∉ s ∧ '\x27' ∉ s :=
  ⟨fun hm => (h.2 _ hm).1 rfl, fun hm => (h.2 _ hm).2.1 rfl⟩

/-- The scan looks for keys in a text between single quotes. -/
theorem SingleQuoted.rewrites (h : SingleQuoted t s) :
    Rewrites t ('\x27' :: quoteBareKeys s ++ ['\x27']) := by
  intro last rest
  have htext : ∀ x y : Text, '\x27' :: x ++ ['\x27'] ++ y = '\x27' :: (x ++ '\x27' :: y) := by simp
  have hspace : isKeySpace '\x27' = false := by decide
  rw [h.1, htext, htext, quoteKeysAfter_plain (by decide) (.inl (by decide)), hspace,
    if_neg Bool.false_ne_true, quoteKeysAfter_of_not_opens (by decide),
    quoteKeysAfter_append_apostrophe h.not_mem.1, quoteBareKeys]

theorem ne_apostrophe_of_hexQuad? {a b c d : Char} {n : Nat} (h : hexQuad? a b c d = some n) :
    a ≠ '\x27' ∧ b ≠ '\x27' ∧ c ≠ '\x27' ∧ d ≠ '\x27' := by
  have hmem := not_mem_of_hexQuad? (x := '\x27') h (by decide)
  simpa [eq_comm] using hmem

/-- The text of a string up to its first apostrophe is that of a string. -/
theorem Spelling.takeWhile {raw : Text} (h : Spelling raw s) :
    ∃ r, Spelling (raw.takeWhile (· != '\x27')) r := by
  induction h with
  | nil => exact ⟨[], .nil⟩
  | @plain c raw s hq hb hc _ ih =>
    obtain ⟨r, hr⟩ := ih
    by_cases ha : c = '\x27'
    · exact ⟨[], by simpa [ha] using .nil⟩
    · exact ⟨c :: r, by simpa [ha] using .plain hq hb hc hr⟩
  | @short e c raw s he _ ih =>
    obtain ⟨r, hr⟩ := ih
    have ha : e ≠ '\x27' := by
      rintro rfl
      simp [simpleEscape?] at he
    exact ⟨c :: r, by simpa [ha] using .short he hr⟩
  | @code a b c d x raw s hx _ ih =>
    obtain ⟨r, hr⟩ := ih
    obtain ⟨ha, hb, hc, hd⟩ := ne_apostrophe_of_hexQuad? hx
    exact ⟨x :: r, by simpa [ha, hb, hc, hd] using .code hx hr⟩
  | @pair a b c d a' b' c' d' x n m raw s hn hm hhigh hlow hx _ ih =>
    obtain ⟨r, hr⟩ := ih
    obtain ⟨ha, hb, hc, hd⟩ := ne_apostrophe_of_hexQuad? hn
    obtain ⟨ha', hb', hc', hd'⟩ := ne_apostrophe_of_hexQuad? hm
    exact ⟨x :: r, by
      simpa [ha, hb, hc, hd, ha', hb', hc', hd'] using .pair hn hm hhigh hlow hx hr⟩

theorem Spelling.before {pre post : Text} (h : Spelling (pre ++ '\x27' :: post) s)
    (hp : '\x27' ∉ pre) : ∃ r, Spelling pre r := by
  obtain ⟨r, hr⟩ := h.takeWhile
  rw [List.takeWhile_append_of_pos (ne_apostrophe_of_not_mem hp)] at hr
  exact ⟨r, by simpa using hr⟩

end

/-! ## Apostrophes made quotes -/

/-- An apostrophe made a quote. -/
def requote (c : Char) : Char := if c == '\x27' then '"' else c

/-- A text with its apostrophes made quotes. -/
def requoted (t : Text) : Text := t.map requote

theorem requote_of_ne {c : Char} (h : c ≠ '\x27') : requote c = c := by simp [requote, h]

theorem requoted_append (s t : Text) : requoted (s ++ t) = requoted s ++ requoted t :=
  List.map_append

theorem requoted_of_not_mem {t : Text} (h : '\x27' ∉ t) : requoted t = t := by
  induction t with
  | nil => rfl
  | cons c t ih =>
    rw [List.mem_cons, not_or] at h
    rw [requoted, List.map_cons, requote_of_ne (Ne.symm h.1), ← requoted, ih h.2]

theorem requoted_gap {gap : Text} (hg : gap.all isSpace = true) : requoted gap = gap :=
  requoted_of_not_mem (not_mem_of_all hg (by decide))

theorem requoted_singleQuoted (x : Text) :
    requoted ('\x27' :: x ++ ['\x27']) = '"' :: requoted x ++ ['"'] := by
  simp [requoted, requote]

theorem requoted_layout {opening closing : Char} (ho : requote opening = opening)
    (hc : requote closing = closing) (xs : List Text) :
    requoted (layout opening closing [] [] xs) =
      layout opening closing [] [] (xs.map requoted) := by
  have hcomma : requote ',' = ',' := rfl
  cases xs with
  | nil => simp [layout, requoted, ho, hc]
  | cons x xs => simp [layout, requoted, ho, hc, hcomma, List.flatMap_map, List.map_flatMap]

section

variable {string string' : Text → Text → Prop} {t : Text} {v : Value}

/-- **A rendering with its apostrophes made quotes** is one with its strings so. -/
theorem Renders.requoted (h : Renders string string t v)
    (hs : ∀ t s, string t s → string' (requoted t) s) :
    Renders string' string' (Json.requoted t) v := by
  induction h with
  | null => exact .null
  | bool b =>
    have htext : Json.requoted (if b then "true".toList else "false".toList) =
        if b then "true".toList else "false".toList := by cases b <;> rfl
    rw [htext]
    exact .bool b
  | int k =>
    have hmem : '\x27' ∉ (Number.int k).render := by
      intro h
      rcases Number.eq_or_isDigit_of_mem_render h with h | h <;> exact absurd h (by decide)
    rw [requoted_of_not_mem hmem]
    exact .int k
  | string h => exact .string (hs _ _ h)
  | @emptyArray gap hg =>
    have hmem := not_mem_of_all (c := '\x27') hg (by decide)
    rw [requoted_of_not_mem (by simpa using hmem)]
    exact .emptyArray hg
  | array _ ih =>
    rw [requoted_layout rfl rfl, List.map_map]
    exact .array_map ih
  | @emptyObject gap hg =>
    have hmem := not_mem_of_all (c := '\x27') hg (by decide)
    rw [requoted_of_not_mem (by simpa using hmem)]
    exact .emptyObject hg
  | @object fields hf _ ih =>
    let changed : WrittenField → WrittenField :=
      fun f => { f with keyText := Json.requoted f.keyText, text := Json.requoted f.text }
    have hkeyed : ∀ f ∈ fields, (changed f).IsKeyed string' :=
      fun f h => ⟨(hf f h).before, (hf f h).after, hs _ _ (hf f h).key⟩
    have hfull : ∀ f ∈ fields, Json.requoted f.full = (changed f).full := by
      intro f h
      have hcolon : ∀ x, Json.requoted (':' :: x) = ':' :: Json.requoted x := fun _ => rfl
      rw [WrittenField.full, requoted_append, requoted_append, requoted_append, hcolon,
        requoted_gap (hf f h).before, requoted_gap (hf f h).after]
      rfl
    have hobject := Renders.object_map hkeyed ih
    rw [requoted_layout rfl rfl, List.map_map, Function.comp_def, List.map_congr_left hfull]
    exact hobject
  | @spaceBefore c t v hc _ ih =>
    have hspace : Json.requoted [c] = [c] := requoted_gap (by simpa using hc)
    rw [← List.singleton_append, requoted_append, hspace]
    exact .spaceBefore hc ih
  | @spaceAfter c t v hc _ ih =>
    have hspace : Json.requoted [c] = [c] := requoted_gap (by simpa using hc)
    rw [requoted_append, hspace]
    exact .spaceAfter hc ih

end

section

variable {t s : Text}

/-- **A JSON string that jams** goes on after its end when its apostrophes are quotes. -/
theorem JsonString.requoted (h : JsonString t s) (hj : jams t = true) :
    StringOrBlock (Json.requoted t) s := by
  by_cases hmem : '\x27' ∈ t
  · right
    intro rest
    obtain ⟨raw, rfl, hraw⟩ := h
    obtain ⟨pre, post, rfl, hpre⟩ : ∃ pre post, raw = pre ++ '\x27' :: post ∧ '\x27' ∉ pre :=
      List.eq_append_cons_of_mem (by simpa using hmem)
    obtain ⟨r, hspell⟩ := hraw.before hpre
    obtain ⟨c, post', hpost⟩ : ∃ c post', post ++ ['"'] = c :: post' :=
      List.exists_cons_of_ne_nil (by simp)
    have hc : followsString c = false := by
      have hquoted : '\x27' ∉ '"' :: pre := by simpa using hpre
      have hjams := jams_append hquoted c post'
      rw [List.cons_append, List.append_assoc, List.cons_append, hpost, ← List.cons_append,
        hjams] at hj
      simpa using hj
    have hc' : followsString (requote c) = false := by
      unfold requote
      split
      · decide
      · exact hc
    have htext : Json.requoted ('"' :: (pre ++ '\x27' :: post) ++ ['"']) ++ rest =
        '"' :: (pre ++ '"' :: requote c :: (Json.requoted post' ++ rest)) := by
      have happly : ∀ x y, Json.requoted (x :: y) = requote x :: Json.requoted y := fun _ _ => rfl
      rw [List.cons_append, List.append_assoc, List.cons_append, hpost, happly, requoted_append,
        requoted_of_not_mem hpre]
      simp [happly, requote]
    rw [htext]
    exact stuck_string hspell.content hc'
  · rw [requoted_of_not_mem hmem]
    exact .inl h

theorem followsString_of_startsName {c : Char} (h : startsName c = true) :
    followsString c = false := by
  rw [Bool.eq_false_iff]
  intro hf
  simp only [followsString, isSpace, Bool.or_eq_true, beq_iff_eq, or_assoc] at hf
  rcases hf with rfl | rfl | rfl | rfl | rfl | rfl | rfl | rfl <;> exact absurd h (by decide)

/-- **A text between single quotes** is a JSON string when these are quotes, unless the scan found
keys in it. -/
theorem SingleQuoted.requoted (h : SingleQuoted t s) :
    StringOrBlock (Json.requoted ('\x27' :: quoteBareKeys s ++ ['\x27'])) s := by
  rcases quoteKeysAfter_eq_or none h.not_mem.1 with heq | ⟨pre, c, post, heq, hc, hpre⟩
  · left
    rw [requoted_singleQuoted, quoteBareKeys, heq, requoted_of_not_mem h.not_mem.2]
    exact ⟨s, rfl, h.spelling⟩
  · right
    intro rest
    have hspell : Spelling pre pre :=
      spelling_of_forall fun c hc => ⟨(h.2 c (hpre hc)).1, (h.2 c (hpre hc)).2.2⟩
    have hmem : '\x27' ∉ pre := fun hm => h.not_mem.2 (hpre hm)
    have hc' : requote c = c := by
      refine requote_of_ne ?_
      rintro rfl
      exact absurd hc (by decide)
    rw [requoted_singleQuoted, quoteBareKeys, heq, requoted_append, requoted_of_not_mem hmem]
    have hgo : '"' :: (pre ++ Json.requoted ('"' :: c :: post)) ++ ['"'] ++ rest =
        '"' :: (pre ++ '"' :: c :: (Json.requoted post ++ '"' :: rest)) := by
      simp [Json.requoted, hc']
      rfl
    rw [hgo]
    exact stuck_string hspell.content (followsString_of_startsName hc)

end

/-! ## What the scan makes of a string -/

/-- What the scan makes of a jamming string. -/
def ScannedString (t s : Text) : Prop :=
  (JsonString t s ∧ jams t = true) ∨
    ∃ q, SingleQuoted q s ∧ t = '\x27' :: quoteBareKeys s ++ ['\x27']

theorem not_mem_of_isName {k : Text} (h : isName k = true) : '\x27' ∉ '"' :: k ++ ['"'] := by
  have hk : '\x27' ∉ k := not_mem_of_all (p := isIdentChar)
    (List.all_eq_true.2 (isIdentChar_of_mem_of_isName h)) (by decide)
  simpa using hk

section

variable {t s : Text}

/-- No token starts with an apostrophe, so in the second attempt nothing between single quotes is
read. -/
theorem ScannedString.stringOrBlock (h : ScannedString t s) : StringOrBlock t s := by
  rcases h with ⟨h, -⟩ | ⟨q, -, rfl⟩
  · exact .inl h
  · exact .inr fun rest => stuck_apostrophe

theorem ScannedString.requoted (h : ScannedString t s) : StringOrBlock (Json.requoted t) s := by
  rcases h with ⟨h, hj⟩ | ⟨q, h, rfl⟩
  · exact h.requoted hj
  · exact h.requoted

theorem PlainString.scanned (h : PlainString t s) : ScannedString t s := by
  rcases h with ⟨h, hmem⟩ | ⟨h, hscan⟩
  · exact .inl ⟨h, jams_of_not_mem hmem⟩
  · exact .inr ⟨t, h, by rw [hscan, h.1]⟩

theorem PlainString.requoted (h : PlainString t s) : JsonString (Json.requoted t) s := by
  rcases h with ⟨h, hmem⟩ | ⟨h, -⟩
  · rwa [requoted_of_not_mem hmem]
  · rw [h.1, requoted_singleQuoted, requoted_of_not_mem h.not_mem.2]
    exact ⟨s, rfl, h.spelling⟩

end

/-! ## Reading -/

/-- **The first attempt changes nothing**: what it reads, the second one reads as well. -/
theorem parseRelaxed_eq {t : Text} (hne : trim t ≠ []) : parseRelaxed t =
    match (Value.parse? (quoteBareKeys (trim t))).or
      (Value.parse? (requoted (quoteBareKeys (trim t)))) with
    | some v => .ok v
    | none => .error ⟨(trim t).take snippetLength⟩ := by
  rw [parseRelaxed]
  simp only [List.isEmpty_iff, if_neg hne]
  cases hread : Value.parse? (trim t) with
  | none => rfl
  | some v =>
    obtain ⟨tree, htree, -⟩ := Option.bind_eq_some_iff.1 hread
    rw [Tree.quoteBareKeys_of_parse? htree, hread]
    rfl

section

variable {string string' : Text → Text → Prop} {t : Text} {v : Value}

/-- A rendering with bare keys, scanned from its first character to its last. -/
theorem Renders.scanned (h : Renders (OrBare string) string t v)
    (hs : ∀ t s, string t s → AnyString t s ∧ ∃ u, string' u s ∧ Rewrites t u)
    (hb : ∀ k, isName k = true → string' ('"' :: k ++ ['"']) k) :
    Text.trim t ≠ [] ∧ Renders string' string' (quoteBareKeys (Text.trim t)) v := by
  obtain ⟨htrim, hne⟩ := h.trim fun t s ht => (hs t s ht).1.trim
  obtain ⟨u, hu, hquotes⟩ := htrim.exists_quotesTo_of_strings (fun t s ht => (hs t s ht).2) hb
  have hscan := hquotes none [] (by simp [Closes])
  rw [List.append_nil, quoteKeysAfter_nil, List.append_nil] at hscan
  exact ⟨hne, by rwa [quoteBareKeys, hscan]⟩

end

section

variable {v : Value}

/-- With nothing between single quotes the second attempt is enough. -/
theorem parseRelaxed_of_jsonStrings (hv : v.Regular) (hd : v.depth ≤ maxDepth) {t : Text}
    (h : Renders (OrBare JsonString) JsonString t v) : parseRelaxed t = .ok v := by
  obtain ⟨hne, hkeyed⟩ := h.scanned (fun t s ht => ⟨.inl ht, t, ht, ht.rewrites⟩)
    fun _ => jsonString_of_isName
  rw [parseRelaxed_eq hne, Value.parse?_of_renders hkeyed hv hd]
  rfl

theorem parseRelaxed_of_plainStrings (hv : v.Regular) (hd : v.depth ≤ maxDepth) {t : Text}
    (h : Renders (OrBare PlainString) PlainString t v) : parseRelaxed t = .ok v := by
  have hs : ∀ t s, PlainString t s → AnyString t s ∧ ∃ u, PlainString u s ∧ Rewrites t u := by
    intro t s ht
    refine ⟨ht.jamming.any, t, ht, ?_⟩
    rcases ht with ⟨ht, -⟩ | ⟨ht, hscan⟩
    · exact ht.rewrites
    · have hrewrites := ht.rewrites
      rwa [hscan, ← ht.1] at hrewrites
  have hb : ∀ k, isName k = true → PlainString ('"' :: k ++ ['"']) k :=
    fun k hk => .inl ⟨jsonString_of_isName hk, not_mem_of_isName hk⟩
  obtain ⟨hne, hkeyed⟩ := h.scanned hs hb
  have hsecond := Value.parse?_eq_or_none (hkeyed.mono (fun _ _ h => h.scanned.stringOrBlock)
    fun _ _ h => h.scanned.stringOrBlock) hv hd
  have hthird := Value.parse?_of_renders (hkeyed.requoted fun _ _ => PlainString.requoted) hv hd
  rw [parseRelaxed_eq hne, hthird]
  rcases hsecond with hsecond | hsecond <;> rw [hsecond] <;> rfl

theorem parseRelaxed_of_jammingStrings (hv : v.Regular) (hd : v.depth ≤ maxDepth) {t : Text}
    (h : Renders (OrBare JammingString) JammingString t v) :
    parseRelaxed t = .ok v ∨ parseRelaxed t = .error ⟨(trim t).take snippetLength⟩ := by
  have hs : ∀ t s, JammingString t s → AnyString t s ∧ ∃ u, ScannedString u s ∧ Rewrites t u := by
    intro t s ht
    refine ⟨ht.any, ?_⟩
    rcases ht with ⟨ht, hj⟩ | ht
    · exact ⟨t, .inl ⟨ht, hj⟩, ht.rewrites⟩
    · exact ⟨_, .inr ⟨t, ht, rfl⟩, ht.rewrites⟩
  have hb : ∀ k, isName k = true → ScannedString ('"' :: k ++ ['"']) k :=
    fun k hk => .inl ⟨jsonString_of_isName hk, jams_of_not_mem (not_mem_of_isName hk)⟩
  obtain ⟨hne, hkeyed⟩ := h.scanned hs hb
  have hsecond := Value.parse?_eq_or_none (hkeyed.mono (fun _ _ => ScannedString.stringOrBlock)
    fun _ _ => ScannedString.stringOrBlock) hv hd
  have hthird := Value.parse?_eq_or_none (hkeyed.requoted fun _ _ => ScannedString.requoted) hv hd
  rw [parseRelaxed_eq hne]
  rcases hsecond with hsecond | hsecond <;> rcases hthird with hthird | hthird <;>
    simp [hsecond, hthird]

/-- **When single quotes change no value.** A value of integers that is not nested too deep is read
from a text with bare keys and with strings of JSON; from one with texts between single quotes too,
if no JSON string has an apostrophe and no key is found between single quotes; and from such a text
no other value is read, even if keys are found, and if JSON strings have apostrophes that jam. -/
theorem parseRelaxed_of_singleQuotes (hv : v.Regular) (hd : v.depth ≤ maxDepth) :
    (∀ t, Renders (OrBare JsonString) JsonString t v → parseRelaxed t = .ok v) ∧
      (∀ t, Renders (OrBare PlainString) PlainString t v → parseRelaxed t = .ok v) ∧
      ∀ t, Renders (OrBare JammingString) JammingString t v →
        parseRelaxed t = .ok v ∨ parseRelaxed t = .error ⟨(trim t).take snippetLength⟩ :=
  ⟨fun _ => parseRelaxed_of_jsonStrings hv hd, fun _ => parseRelaxed_of_plainStrings hv hd,
    fun _ => parseRelaxed_of_jammingStrings hv hd⟩

end

/-! ## Two strings -/

/-- An array of two strings, as they are written. -/
def pairText (t t' : Text) : Text := '[' :: (t ++ ',' :: ' ' :: (t' ++ [']']))

theorem renders_pairText {key string : Text → Text → Prop} {t t' s s' : Text} (h : string t s)
    (h' : string t' s') :
    Renders key string (pairText t t') (.array [.string s, .string s']) := by
  have hitems : ∀ i ∈ [(t, Value.string s), (' ' :: t', Value.string s')],
      Renders key string i.1 i.2 := by
    simpa using ⟨.string h, .spaceBefore rfl (.string h')⟩
  simpa [pairText, layout] using Renders.array hitems

/-- `["it's", "x"]` -/
def contracted : Value := .array [.string "it\x27s".toList, .string "x".toList]

theorem parseRelaxed_contracted : contracted.Regular ∧ contracted.depth ≤ maxDepth ∧
    parseRelaxed "[\"it\x27s\", \"x\"]".toList = .ok contracted ∧
    parseRelaxed "[\"it\\u0027s\", \x27x\x27]".toList = .ok contracted ∧
    (parseRelaxed "[\"it\x27s\", \x27x\x27]".toList = .ok contracted ∨
      parseRelaxed "[\"it\x27s\", \x27x\x27]".toList =
        .error ⟨"[\"it\x27s\", \x27x\x27]".toList⟩) := by
  have hv : contracted.Regular := by decide
  have hd : contracted.depth ≤ maxDepth := by decide
  have hshown : JsonString "\"it\x27s\"".toList "it\x27s".toList :=
    jsonString_renderString "it\x27s".toList
  have hescaped : JsonString "\"it\\u0027s\"".toList "it\x27s".toList := by
    refine ⟨"it\\u0027s".toList, rfl, ?_⟩
    have hcode : Spelling "\\u0027s".toList "\x27s".toList :=
      .code (x := '\x27') (by decide) (spelling_of_forall (s := ['s']) (by simp))
    exact .plain (by decide) (by decide) (by decide)
      (.plain (by decide) (by decide) (by decide) hcode)
  have hjams : jams "\"it\x27s\"".toList = true := by decide
  have hsingle : SingleQuoted "\x27x\x27".toList "x".toList := ⟨rfl, by simp⟩
  have hscan : quoteBareKeys "x".toList = "x".toList := by decide +kernel
  have hplain : PlainString "\"it\\u0027s\"".toList "it\x27s".toList :=
    .inl ⟨hescaped, by decide⟩
  have hplain' : PlainString "\x27x\x27".toList "x".toList := .inr ⟨hsingle, hscan⟩
  have hjamming : JammingString "\"it\x27s\"".toList "it\x27s".toList := .inl ⟨hshown, hjams⟩
  have hjamming' : JammingString "\x27x\x27".toList "x".toList := .inr hsingle
  obtain ⟨hjson, hsecond, hthird⟩ := parseRelaxed_of_singleQuotes hv hd
  exact ⟨hv, hd, hjson _ (renders_pairText hshown (jsonString_renderString "x".toList)),
    hsecond _ (renders_pairText hplain hplain'), hthird _ (renders_pairText hjamming hjamming')⟩

/-- **Single quotes can change a value**: where there are some, an apostrophe within a JSON string
may be taken for its end. -/
theorem not_parseRelaxed_of_singleQuotes :
    ¬∀ (v : Value) (t : Text), v.Regular → v.depth ≤ maxDepth →
      Renders (OrBare AnyString) AnyString t v →
      parseRelaxed t = .ok v ∨ ∃ e, parseRelaxed t = .error e := by
  intro h
  have hx : AnyString "\x27x\x27".toList "x".toList := .inr ⟨rfl, by simp⟩
  have hcomma : JsonString (renderString "\x27,\x27".toList) "\x27,\x27".toList :=
    jsonString_renderString _
  have hread : (parseRelaxed (pairText "\x27x\x27".toList (renderString "\x27,\x27".toList))).map
      Value.compact = .ok "[\"x\",\"\",\"\"]".toList := by decide +kernel
  rcases h _ _ (by decide) (by decide) (renders_pairText hx (.inl hcomma)) with h | ⟨e, h⟩
  · rw [h] at hread
    revert hread
    decide
  · rw [h] at hread
    cases hread

end SpecHarvest.Json
