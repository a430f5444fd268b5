import Mathlib.Data.List.Find
import SpecHarvest.ExpectedExpr
import SpecHarvest.Proofs.HeaderMatcher.Written
import SpecHarvest.Proofs.Source.TopLevel
import SpecHarvest.Proofs.Text.Excerpt

/-!
# The literals of an expectation

An expectation holds literals, whose white space counts: that of its body and those of its header
matchers. White space elsewhere in it does not count, least of all at the ends of its lines.

* `Expected.literals` are these literals, as they are written and where they stand. Every reader has
  a counterpart here that gives the excerpts it takes its texts from: `HeaderMatcher.form?`,
  `ExpectedExpr.bodyLiteral?`, `ExpectedExpr.record?`, `ExpectedExpr.matcherList?`.
* `Expected.source_of_mem_literals`: they are parts of the expectation.
* `Expected.parse?_eq_of_literals`: a text and its padded form state the same if their literals are
  the same.
-/

namespace SpecHarvest

open Text Source

/-! ## Header matchers -/

namespace HeaderMatcher

/-- A matcher as it is written: with the literals that hold its texts, or without any. -/
inductive Form where
  | exact (name value : Excerpt)
  | absent (name : Excerpt)
  | helper (m : HeaderMatcher)

namespace Form

/-- The matcher that a form stands for. -/
def matcher : Form → HeaderMatcher
  | exact name value => .exact (unescape name.text) (unescape value.text)
  | absent name => .absent (unescape name.text)
  | helper m => m

/-- The literals of a form. -/
def literals : Form → List Excerpt
  | exact name value => [name, value]
  | absent name => [name]
  | helper _ => []

end Form

/-- An exact pair as it is written. -/
def exactPairForm? (s : Text) : Option Form := do
  let (left, right) ← cut? "<:>".toList s
  let (front, name) ← cutLast? '"' (← before? ['"'] (trimEnd left))
  let (value, rest) ← quoted? (trimStart right)
  if name.isEmpty || value.isEmpty then none
  else some (.exact
    ⟨front ++ ['"'], name, '"' :: (blanksAfter left ++ ("<:>".toList ++ right))⟩
    ⟨left ++ "<:>".toList ++ right.takeWhile Text.isBlank ++ ['"'], value, '"' :: rest⟩)

/-- The absence of a header as it is written. -/
def absentNamedForm? (s : Text) : Option Form := do
  let (front, r) ← keywordSearch "matchHeaderAbsent".toList none s
  let (name, rest) ← nonemptyQuoted? (← blanks? r)
  return .absent
    ⟨front ++ "matchHeaderAbsent".toList ++ r.takeWhile Text.isBlank ++ ['"'], name, '"' :: rest⟩

/-- The matcher of a text, without white space around it, as it is written. -/
def form? (s : Text) : Option Form :=
  [exactPairForm?, fun s => (absentContentType? s).map .helper, absentNamedForm?,
    fun s => (contentType? s).map .helper].findSome? (· s)

/-- The literals of a text, without white space around it, that is read as a matcher. -/
def formLiterals (s : Text) : List Excerpt := ((form? s).map Form.literals).getD []

/-- The literals of a text that is read as a matcher. -/
def literals (s : Text) : List Excerpt := (Excerpt.trimmed s).inner formLiterals

/-! ### Forms and matchers -/

theorem exactPair?_eq (s : Text) : exactPair? s = (exactPairForm? s).map Form.matcher := by
  unfold exactPair? exactPairForm?
  simp only [Option.bind_eq_bind, Option.map_bind, Function.comp_def]
  refine Option.bind_congr fun p _ => Option.bind_congr fun q _ => Option.bind_congr fun r _ =>
    Option.bind_congr fun v _ => ?_
  split <;> rfl

theorem absentNamed?_eq (s : Text) : absentNamed? s = (absentNamedForm? s).map Form.matcher := by
  unfold absentNamed? absentNamedForm? absentArgument? keyword?
  simp only [Option.bind_eq_bind, Option.map_bind, Option.bind_map, Option.bind_assoc,
    Function.comp_def]
  rfl

theorem parse?_eq (s : Text) : parse? s = (form? (trim s)).map Form.matcher := by
  unfold parse? readers form?
  simp only [List.findSome?_cons, List.findSome?_nil]
  rw [exactPair?_eq, absentNamed?_eq]
  cases exactPairForm? (trim s) with
  | some m => rfl
  | none =>
    cases absentContentType? (trim s) with
    | some m => rfl
    | none =>
      cases absentNamedForm? (trim s) with
      | some m => rfl
      | none => cases contentType? (trim s) <;> rfl

/-! ### Where the literals stand -/

theorem source_of_exactPairForm? {s : Text} {m : Form} (h : exactPairForm? s = some m) :
    ∀ e ∈ m.literals, e.source = s := by
  simp only [exactPairForm?, Option.bind_eq_bind, Option.bind_eq_some_iff, Prod.exists] at h
  obtain ⟨left, right, hc, q, hq, front, name, hn, value, rest, hv, h⟩ := h
  obtain rfl := eq_of_cut? hc
  have hleft : front ++ '"' :: (name ++ '"' :: blanksAfter left) = left := by
    have htrim := before?_eq_some_iff.1 hq
    rw [(cutLast?_eq_some_iff.1 hn).1] at htrim
    have happend := trimEnd_append_blanksAfter left
    rw [htrim] at happend
    simpa using happend
  have hright : right.takeWhile Text.isBlank ++ '"' :: (value ++ '"' :: rest) = right := by
    rw [← (quoted?_eq_some_iff.1 hv).2, takeWhile_append_trimStart]
  split at h
  · cases h
  · obtain rfl := Option.some.inj h
    have hname : front ++ '"' :: (name ++ '"' :: (blanksAfter left ++ ("<:>".toList ++ right))) =
        left ++ ("<:>".toList ++ right) := by
      conv_rhs => rw [← hleft]
      simp only [List.append_assoc, List.cons_append]
    have hvalue : left ++ ("<:>".toList ++ (right.takeWhile Text.isBlank ++
        '"' :: (value ++ '"' :: rest))) = left ++ ("<:>".toList ++ right) := by rw [hright]
    simp only [Form.literals, List.forall_mem_cons, Excerpt.source, List.append_assoc,
      List.singleton_append]
    exact ⟨hname, hvalue, List.forall_mem_nil _⟩

theorem source_of_absentNamedForm? {s : Text} {m : Form} (h : absentNamedForm? s = some m) :
    ∀ e ∈ m.literals, e.source = s := by
  simp only [absentNamedForm?, Option.bind_eq_bind, Option.bind_eq_some_iff, Prod.exists] at h
  obtain ⟨front, r, hk, b, hb, name, rest, hn, h⟩ := h
  obtain rfl := Option.some.inj h
  obtain rfl := eq_of_keywordSearch hk
  have hblank : r.takeWhile Text.isBlank ++ b = r := by
    unfold blanks? at hb
    split at hb
    · split at hb
      · next c s hc =>
        rw [← Option.some.inj hb]
        have hs : trimStart (c :: s) = trimStart s := List.dropWhile_cons_of_pos hc
        rw [← hs, takeWhile_append_trimStart]
      · cases hb
    · cases hb
  obtain ⟨-, -, rfl⟩ := nonemptyQuoted?_eq_some_iff.1 hn
  simpa [Form.literals, Excerpt.source] using hblank

theorem source_of_mem_formLiterals (s : Text) : ∀ e ∈ formLiterals s, e.source = s := by
  intro e he
  unfold formLiterals at he
  cases hf : form? s with
  | none =>
    rw [hf] at he
    cases he
  | some m =>
    rw [hf] at he
    obtain ⟨read, hr, hm⟩ := List.exists_of_findSome?_eq_some hf
    simp only [List.mem_cons, List.not_mem_nil, or_false] at hr
    rcases hr with rfl | rfl | rfl | rfl
    · exact source_of_exactPairForm? hm e he
    · obtain ⟨m', -, rfl⟩ := Option.map_eq_some_iff.1 hm
      cases he
    · exact source_of_absentNamedForm? hm e he
    · obtain ⟨m', -, rfl⟩ := Option.map_eq_some_iff.1 hm
      cases he

theorem source_of_mem_literals (s : Text) : ∀ e ∈ literals s, e.source = s := by
  intro e he
  rw [Excerpt.source_of_mem_inner source_of_mem_formLiterals e he, Excerpt.source_trimmed]

/-- What is blank is no matcher. -/
theorem literals_of_allBlank {s : Text} (h : allBlank s = true) : literals s = [] := by
  have hnil : formLiterals [] = [] := by decide
  rw [literals, Excerpt.inner, Excerpt.text_trimmed, trim_eq_nil_iff.2 h, hnil]
  rfl

/-! ### Padded matchers -/

/-- Forms of one kind with padded literals. -/
inductive PaddedForm : Form → Form → Prop
  | exact {name name' value value'} : PaddedExcerpt false name name' →
    PaddedExcerpt false value value' → PaddedForm (.exact name value) (.exact name' value')
  | absent {name name'} : PaddedExcerpt false name name' →
    PaddedForm (.absent name) (.absent name')
  | helper (m : HeaderMatcher) : PaddedForm (.helper m) (.helper m)

theorem PaddedForm.literals {m m' : Form} (h : PaddedForm m m') :
    PaddedExcerpts false m.literals m'.literals := by
  cases h with
  | exact hn hv => exact .cons hn (.cons hv .nil)
  | absent hn => exact .cons hn .nil
  | helper m => exact .nil

theorem PaddedForm.matcher_eq {m m' : Form} (h : PaddedForm m m')
    (hl : m.literals.map (·.text) = m'.literals.map (·.text)) : m.matcher = m'.matcher := by
  cases h with
  | exact hn hv =>
    simp only [Form.literals, List.map_cons, List.cons.injEq] at hl
    rw [Form.matcher, Form.matcher, hl.1, hl.2.1]
  | absent hn =>
    simp only [Form.literals, List.map_cons, List.cons.injEq] at hl
    rw [Form.matcher, Form.matcher, hl.1]
  | helper m => rfl

variable {s t : Text}

theorem rel_exactPairForm? (h : Padded false s t) :
    Option.Rel PaddedForm (exactPairForm? s) (exactPairForm? t) := by
  have hquote := Padded.refl false ['"']
  have hoperator := Padded.refl false "<:>".toList
  unfold exactPairForm?
  refine rel_bind (h.cut? (by decide) (by decide)) fun p p' hp => ?_
  refine rel_bind (hp.1.trimEnd.before? (by decide)) fun q q' hq => ?_
  refine rel_bind (hq.cutLast? (by decide) (by decide)) fun r r' hr => ?_
  refine rel_bind hp.2.trimStart.quoted? fun v v' hv => ?_
  have hname : r.2.isEmpty = r'.2.isEmpty := by
    rw [Bool.eq_iff_iff, List.isEmpty_iff, List.isEmpty_iff]
    exact hr.2.eq_nil
  have hvalue : v.1.isEmpty = v'.1.isEmpty := by
    rw [Bool.eq_iff_iff, List.isEmpty_iff, List.isEmpty_iff]
    exact hv.1.eq_nil
  simp only [hname, hvalue]
  split
  · exact .none
  · refine .some (.exact ⟨hr.1.append hquote, hr.2, ?_⟩ ⟨?_, hv.1, hv.2.cons '"'⟩)
    · exact (hp.1.blanksAfter.append (hoperator.append hp.2)).cons '"'
    · exact ((hp.1.append hoperator).append hp.2.takeWhile_isBlank).append hquote

theorem rel_absentArgument? (h : Padded false s t) :
    Option.Rel (Padded false) (absentArgument? s) (absentArgument? t) :=
  rel_bind (h.keyword? (by decide) (by decide)) fun _ _ hr => hr.blanks?

theorem absentContentType?_eq (h : Padded false s t) :
    absentContentType? s = absentContentType? t := by
  have hrel : Option.Rel Eq (absentContentType? s) (absentContentType? t) :=
    rel_bind (rel_absentArgument? h) fun _ _ hr => rel_bind (hr.word? (by decide)) fun _ _ _ =>
      .some rfl
  rcases cases_of_rel hrel with ⟨hs, ht⟩ | ⟨m, m', hs, ht, rfl⟩
  · rw [hs, ht]
  · rw [hs, ht]

theorem rel_absentNamedForm? (h : Padded false s t) :
    Option.Rel PaddedForm (absentNamedForm? s) (absentNamedForm? t) := by
  unfold absentNamedForm?
  refine rel_bind (h.keywordSearch (by decide) (by decide) none) fun p p' hp => ?_
  refine rel_bind hp.2.blanks? fun r r' hr => ?_
  refine rel_bind hr.nonemptyQuoted? fun v v' hv => .some (.absent ⟨?_, hv.1, hv.2.cons '"'⟩)
  exact ((hp.1.append (.refl false _)).append hp.2.takeWhile_isBlank).append (.refl false ['"'])

theorem contentType?_eq (h : Padded false s t) : contentType? s = contentType? t := by
  have hsolid : ∀ p ∈ contentTypes, Padded.Solid p.1 ∧ p.1 ≠ [] := by decide
  have hfind : contentTypes.find? (fun p => (keyword? p.1 s).isSome) =
      contentTypes.find? fun p => (keyword? p.1 t).isSome := by
    refine List.find?_congr fun p hp => ?_
    obtain ⟨hl, hne⟩ := hsolid p hp
    exact isSome_eq_of_rel (h.keyword? hl hne)
  unfold contentType?
  rw [hfind]

theorem rel_helper (o : Option HeaderMatcher) :
    Option.Rel PaddedForm (o.map .helper) (o.map .helper) := by
  cases o with
  | none => exact .none
  | some m => exact .some (.helper m)

theorem rel_form? (h : Padded false s t) : Option.Rel PaddedForm (form? s) (form? t) := by
  refine rel_findSome? fun read hr => ?_
  simp only [List.mem_cons, List.not_mem_nil, or_false] at hr
  rcases hr with rfl | rfl | rfl | rfl
  · exact rel_exactPairForm? h
  · simpa only [absentContentType?_eq h] using rel_helper _
  · exact rel_absentNamedForm? h
  · simpa only [contentType?_eq h] using rel_helper _

theorem paddedExcerpts_formLiterals (h : Padded false s t) :
    PaddedExcerpts false (formLiterals s) (formLiterals t) := by
  unfold formLiterals
  rcases cases_of_rel (rel_form? h) with ⟨hs, ht⟩ | ⟨m, m', hs, ht, hm⟩
  · rw [hs, ht]
    exact .nil
  · rw [hs, ht]
    exact hm.literals

theorem paddedExcerpts_literals {last : Bool} (h : Padded last s t) :
    PaddedExcerpts last (literals s) (literals t) :=
  (PaddedExcerpt.trimmed h).inner paddedExcerpts_formLiterals

theorem parse?_eq_of_literals (h : Padded false s t)
    (hl : (literals s).map (·.text) = (literals t).map (·.text)) : parse? s = parse? t := by
  simp only [literals, Excerpt.map_text_inner, Excerpt.text_trimmed, formLiterals] at hl
  rw [parse?_eq, parse?_eq]
  rcases cases_of_rel (rel_form? h.trim) with ⟨hs, ht⟩ | ⟨m, m', hs, ht, hm⟩
  · rw [hs, ht]
  · rw [hs, ht] at hl ⊢
    exact congrArg some (hm.matcher_eq hl)

end HeaderMatcher

/-! ## Lists of header matchers -/

/-- Readers of texts agree if what is listed for all texts decides what is read in each. -/
theorem map_eq_of_flatMap_eq {α : Type} {f : Text → List Text} {read read' : Text → α}
    {R : Text → Text → Prop} {ps qs : List Text} (h : List.Forall₂ R ps qs)
    (hf : ∀ p q, R p q → (f p).length = (f q).length ∧ (f p = f q → read p = read' q))
    (hl : ps.flatMap f = qs.flatMap f) : ps.map read = qs.map read' := by
  induction h with
  | nil => rfl
  | cons hr h ih =>
    obtain ⟨hlen, hread⟩ := hf _ _ hr
    rw [List.flatMap_cons, List.flatMap_cons] at hl
    -- the lists of the first two texts are as long, so they are the same
    obtain ⟨hhead, htail⟩ := List.append_inj hl hlen
    rw [List.map_cons, List.map_cons, hread hhead, ih htail]

theorem mapM_eq_mapM_map {α : Type} (read : Text → Option α) (ps : List Text) :
    ps.mapM read = (ps.map read).mapM id := by
  induction ps with
  | nil => rfl
  | cons p ps ih => rw [List.map_cons, List.mapM_cons, List.mapM_cons, ih]; rfl

/-- What is nothing in blank texts may be listed in all parts of a text. -/
theorem flatMap_topLevel {β : Type} {f : Text → List β} (hf : ∀ p, allBlank p = true → f p = [])
    (delim : Char) (s : Text) :
    (topLevel delim s).flatMap f = (topLevelParts delim 0 false s).flatMap f := by
  obtain ⟨front, last, hparts⟩ : ∃ front last, topLevelParts delim 0 false s = front ++ [last] :=
    ⟨_, _, (List.dropLast_append_getLast (topLevelParts_ne_nil delim 0 false s)).symm⟩
  unfold topLevel
  rw [hparts]
  simp only [List.getLast?_concat, Option.getD_some, List.dropLast_concat]
  split
  · next hblank => rw [List.flatMap_append, List.flatMap_singleton, hf last hblank, List.append_nil]
  · rfl

namespace HeaderMatchers

/-- The literals of a list of matchers, without its brackets. -/
def literals (s : Text) : List Excerpt :=
  excerptsOf HeaderMatcher.literals [','] [] (topLevelParts ',' 0 false s)

theorem source_of_mem_literals (s : Text) : ∀ e ∈ literals s, e.source = s := by
  intro e he
  rw [source_of_mem_excerptsOf HeaderMatcher.source_of_mem_literals e he, List.nil_append,
    intercalate_topLevelParts]

variable {s t : Text}

theorem paddedExcerpts_literals (h : Padded false s t) :
    PaddedExcerpts false (literals s) (literals t) :=
  .excerptsOf HeaderMatcher.paddedExcerpts_literals .nil (.of_forall₂ (h.topLevelParts (by decide) 0))

theorem parse?_eq_of_literals (h : Padded false s t)
    (hl : (literals s).map (·.text) = (literals t).map (·.text)) :
    parse? ('[' :: (s ++ [']'])) = parse? ('[' :: (t ++ [']'])) := by
  have hblank : ∀ p, allBlank p = true → (HeaderMatcher.literals p).map (·.text) = [] := by
    intro p hp
    rw [HeaderMatcher.literals_of_allBlank hp]
    rfl
  rw [literals, literals, map_text_excerptsOf, map_text_excerptsOf, ← flatMap_topLevel hblank,
    ← flatMap_topLevel hblank] at hl
  have hmap : (topLevel ',' s).map HeaderMatcher.parse? =
      (topLevel ',' t).map HeaderMatcher.parse? := by
    refine map_eq_of_flatMap_eq (h.topLevel (by decide)) (fun p q hpq => ⟨?_, ?_⟩) hl
    · exact (HeaderMatcher.paddedExcerpts_literals hpq).length_map_text
    · exact HeaderMatcher.parse?_eq_of_literals hpq
  rw [parse?_brackets, parse?_brackets, mapM_eq_mapM_map, mapM_eq_mapM_map, hmap]

end HeaderMatchers

/-! ## Expectations -/

namespace ExpectedExpr

/-- What the first quasi-literal holds. -/
def quasi? (s : Text) : Option Excerpt := do
  let (front, s) ← cut? quasiOpen s
  let (content, rest) ← cut? quasiClose s
  return ⟨front ++ quasiOpen, content, quasiClose ++ rest⟩

/-- What a string literal at the start holds. -/
def string? (s : Text) : Option Excerpt :=
  (quoted? s).map fun (raw, rest) => ⟨['"'], raw, '"' :: rest⟩

/-- The literal of the body: the first quasi-literal, or else the string literal at the start. -/
def bodyLiteral? (s : Text) : Option Excerpt := (quasi? s).or (string? s)

/-- The first record that starts with a match attribute, without its braces. -/
def record? : Text → Option Excerpt
  | [] => none
  | c :: s =>
    if c = '{' && matchFields.any (startsWith · (trimStart s)) then
      (matching? '{' '}' 1 false s).map fun (block, rest) => ⟨[c], block, '}' :: rest⟩
    else (record? s).map (·.between [c] [])

/-- The list of header matchers in a record, without its brackets. -/
def matcherList? (block : Text) : Option Excerpt := do
  let (front, r) ← keywordSearch "matchHeaders".toList none block
  let r' ← after? ['='] (trimStart r)
  let (list, rest) ← bracketed? '[' ']' (trimStart r')
  return ⟨front ++ "matchHeaders".toList ++ r.takeWhile isBlank ++ ['='] ++ r'.takeWhile isBlank ++
    ['['], list, ']' :: rest⟩

/-- The literals of the header matchers in a record. -/
def recordLiterals (block : Text) : List Excerpt :=
  (matcherList? block).toList.flatMap (·.inner HeaderMatchers.literals)

/-- The literals of an expectation, without white space around it. -/
def literals (s : Text) : List Excerpt :=
  (bodyLiteral? s).toList ++ (record? s).toList.flatMap (·.inner recordLiterals)

variable {s t : Text}

/-! ### What is read -/

theorem quasiContent?_eq (s : Text) : quasiContent? s = (quasi? s).map fun e => trim e.text := by
  unfold quasiContent? quasi?
  simp only [Option.bind_eq_bind, Option.map_bind, Function.comp_def]
  rfl

theorem attributes?_eq (s : Text) : attributes? s = (record? s).map (·.text) := by
  induction s with
  | nil => rfl
  | cons c s ih =>
    rw [attributes?, record?]
    split
    · rw [Option.map_map]
      rfl
    · rw [ih, Option.map_map]
      rfl

theorem matchersOf_eq (block : Text) : matchersOf block = ((matcherList? block).bind fun e =>
    HeaderMatchers.parse? ('[' :: (e.text ++ [']']))).getD (.ofList []) := by
  unfold matchersOf field? listAt? matcherList? keyword?
  simp only [Option.bind_eq_bind, Option.bind_assoc, Option.map_eq_bind, Function.comp_def]
  rfl

/-! ### Where the literals stand -/

theorem source_of_quasi? {e : Excerpt} (h : quasi? s = some e) : e.source = s := by
  simp only [quasi?, Option.bind_eq_bind, Option.bind_eq_some_iff, Prod.exists] at h
  obtain ⟨front, r, hf, content, rest, hc, h⟩ := h
  obtain rfl := eq_of_cut? hf
  obtain rfl := eq_of_cut? hc
  obtain rfl := Option.some.inj h
  simp [Excerpt.source]

theorem source_of_bodyLiteral? {e : Excerpt} (h : bodyLiteral? s = some e) : e.source = s := by
  rcases Option.or_eq_some_iff.1 h with h | ⟨-, h⟩
  · exact source_of_quasi? h
  · obtain ⟨⟨raw, rest⟩, hq, rfl⟩ := Option.map_eq_some_iff.1 h
    rw [(quoted?_eq_some_iff.1 hq).2]
    rfl

theorem source_of_record? {e : Excerpt} (h : record? s = some e) : e.source = s := by
  induction s generalizing e with
  | nil => cases h
  | cons c s ih =>
    rw [record?] at h
    split at h
    · obtain ⟨⟨block, rest⟩, hm, rfl⟩ := Option.map_eq_some_iff.1 h
      rw [eq_of_matching? hm]
      rfl
    · obtain ⟨e, he, rfl⟩ := Option.map_eq_some_iff.1 h
      rw [Excerpt.source_between, ih he, List.append_nil]
      rfl

theorem source_of_matcherList? {e : Excerpt} (h : matcherList? s = some e) : e.source = s := by
  simp only [matcherList?, Option.bind_eq_bind, Option.bind_eq_some_iff, Prod.exists] at h
  obtain ⟨front, r, hk, r', ha, list, rest, hb, h⟩ := h
  obtain rfl := Option.some.inj h
  have hlist : r'.takeWhile isBlank ++ '[' :: (list ++ ']' :: rest) = r' := by
    have happend := takeWhile_append_trimStart r'
    cases htrim : trimStart r' with
    | nil =>
      rw [htrim] at hb
      cases hb
    | cons c u =>
      rw [htrim, bracketed?] at hb
      split at hb
      · next hc =>
        rwa [htrim, hc, eq_of_matching? hb] at happend
      · cases hb
  have hr : r.takeWhile isBlank ++ '=' :: r' = r := by
    have happend := takeWhile_append_trimStart r
    rwa [after?_eq_some_iff.1 ha] at happend
  calc Excerpt.source _
      = front ++ "matchHeaders".toList ++ (r.takeWhile isBlank ++ '=' ::
          (r'.takeWhile isBlank ++ '[' :: (list ++ ']' :: rest))) := by simp [Excerpt.source]
    _ = front ++ "matchHeaders".toList ++ r := by rw [hlist, hr]
    _ = s := (eq_of_keywordSearch hk).symm

theorem source_of_mem_inner_of_some {o : Option Excerpt} {list : Text → List Excerpt}
    (ho : ∀ e, o = some e → e.source = s) (hl : ∀ s, ∀ e ∈ list s, e.source = s) :
    ∀ e ∈ o.toList.flatMap (·.inner list), e.source = s := by
  intro e he
  obtain ⟨outer, houter, he⟩ := List.mem_flatMap.1 he
  rw [Excerpt.source_of_mem_inner hl e he, ho outer (Option.mem_toList.1 houter)]

theorem source_of_mem_recordLiterals (s : Text) : ∀ e ∈ recordLiterals s, e.source = s :=
  source_of_mem_inner_of_some (fun _ => source_of_matcherList?) HeaderMatchers.source_of_mem_literals

theorem source_of_mem_literals (s : Text) : ∀ e ∈ literals s, e.source = s := by
  intro e he
  rcases List.mem_append.1 he with he | he
  · exact source_of_bodyLiteral? (Option.mem_toList.1 he)
  · exact source_of_mem_inner_of_some (fun _ => source_of_record?) source_of_mem_recordLiterals e he

/-! ### Padded expectations -/

theorem rel_quasi? (h : Padded false s t) :
    Option.Rel (PaddedExcerpt false) (quasi? s) (quasi? t) := by
  unfold quasi?
  refine rel_bind (h.cut? (by decide) (by decide)) fun p p' hp => ?_
  refine rel_bind (hp.2.cut? (by decide) (by decide)) fun q q' hq => .some ?_
  exact ⟨hp.1.append (.refl false _), hq.1, (Padded.refl false _).append hq.2⟩

theorem rel_string? (h : Padded false s t) :
    Option.Rel (PaddedExcerpt false) (string? s) (string? t) :=
  rel_map h.quoted? fun _ _ hp => ⟨.refl false ['"'], hp.1, hp.2.cons '"'⟩

theorem rel_bodyLiteral? (h : Padded false s t) :
    Option.Rel (PaddedExcerpt false) (bodyLiteral? s) (bodyLiteral? t) := by
  unfold bodyLiteral?
  rcases cases_of_rel (rel_quasi? h) with ⟨hs, ht⟩ | ⟨e, f, hs, ht, he⟩
  · rw [hs, ht]
    exact rel_string? h
  · rw [hs, ht]
    exact .some he

theorem body?_eq_of_literal (h : Padded false s t)
    (hl : (bodyLiteral? s).map (·.text) = (bodyLiteral? t).map (·.text)) : body? s = body? t := by
  unfold bodyLiteral? at hl
  unfold body?
  rw [quasiContent?_eq, quasiContent?_eq]
  rcases cases_of_rel (rel_quasi? h) with ⟨hs, ht⟩ | ⟨e, f, hs, ht, he⟩
  · rw [hs, ht, Option.none_or, Option.none_or] at hl
    have hstart := h.startsWith_eq (show Padded.Solid ['"'] by decide)
    rw [hs, ht]
    simp only [Option.map_none, hstart]
    -- only the text of the literal is looked at
    have hquoted : ∀ u, (quoted? u).map (fun p => some
          ((Json.Value.parse? (unescape p.1)).getD (.string (unescape p.1)))) =
        ((string? u).map (·.text)).map fun raw => some
          ((Json.Value.parse? (unescape raw)).getD (.string (unescape raw))) := by
      intro u
      rw [string?, Option.map_map, Option.map_map]
      rfl
    split
    · exact (hquoted s).trans ((congrArg _ hl).trans (hquoted t).symm)
    · rfl
  · rw [hs, ht] at hl ⊢
    have htext : e.text = f.text := Option.some.inj hl
    simp only [Option.map_some, htext]

theorem rel_record? (h : Padded false s t) :
    Option.Rel (PaddedExcerpt false) (record? s) (record? t) := by
  have hfields : ∀ name ∈ matchFields, Padded.Solid name := by decide
  generalize hl : false = l at h
  induction h with
  | nil => exact .none
  | space => cases hl
  | @cons _ c s t h ih =>
    subst hl
    have hany : matchFields.any (startsWith · (trimStart s)) =
        matchFields.any (startsWith · (trimStart t)) := by
      rw [Bool.eq_iff_iff, List.any_eq_true, List.any_eq_true]
      refine exists_congr fun name => and_congr_right fun hm => ?_
      rw [h.trimStart.startsWith_eq (hfields name hm)]
    rw [record?, record?, hany]
    split
    · exact rel_map (h.matching? (by decide) (by decide) 1) fun _ _ hp =>
        ⟨.refl false [c], hp.1, hp.2.cons '}'⟩
    · exact rel_map (ih rfl) fun _ _ he => he.behind (.refl false [c])
  | @newline _ s t h ih =>
    subst hl
    have hspace : ∀ u, record? (' ' :: '\n' :: u) = (record? u).map (·.between " \n".toList []) := by
      intro u
      simp [record?, Excerpt.between, Function.comp_def]
    have hnewline : ∀ u, record? ('\n' :: u) = (record? u).map (·.between ['\n'] []) := by
      intro u
      simp [record?]
    rw [hnewline, hspace]
    exact rel_map (ih rfl) fun _ _ he => he.behind (Padded.nil.newline)

theorem rel_field? {name : Text} (hl : Padded.Solid name) (hne : name ≠ [])
    (h : Padded false s t) : Option.Rel (Padded false) (field? name s) (field? name t) :=
  rel_bind (h.keyword? hl hne) fun _ _ hr => rel_bind (hr.trimStart.after? (by decide))
    fun _ _ hr => .some hr.trimStart

theorem statusOf?_eq (h : Padded false s t) : statusOf? s = statusOf? t := by
  unfold statusOf?
  have hsolid : Padded.Solid "matchStatus".toList := by decide
  rcases cases_of_rel (rel_field? hsolid (by decide) h) with
    ⟨hs, ht⟩ | ⟨r, r', hs, ht, hr⟩
  · rw [hs, ht]
  · rw [hs, ht]
    rcases cases_of_rel hr.natural? with ⟨hn, hn'⟩ | ⟨p, q, hn, hn', hp⟩
    · simp only [hn, hn', Option.bind_none]
    · simp only [hn, hn', Option.bind_some, hp.1]

theorem rel_matcherList? (h : Padded false s t) :
    Option.Rel (PaddedExcerpt false) (matcherList? s) (matcherList? t) := by
  unfold matcherList?
  refine rel_bind (h.keywordSearch (by decide) (by decide) none) fun p p' hp => ?_
  refine rel_bind (hp.2.trimStart.after? (by decide)) fun r r' hr => ?_
  refine rel_bind (hr.trimStart.bracketed? (by decide) (by decide)) fun q q' hq => ?_
  refine .some ⟨?_, hq.1, hq.2.cons ']'⟩
  have hequals := ((hp.1.append (.refl false "matchHeaders".toList)).append
    hp.2.takeWhile_isBlank).append (.refl false ['='])
  exact (hequals.append hr.takeWhile_isBlank).append (.refl false ['['])

theorem paddedExcerpts_toList {o o' : Option Excerpt}
    (h : Option.Rel (PaddedExcerpt false) o o') : PaddedExcerpts false o.toList o'.toList := by
  cases h with
  | none => exact .nil
  | some he => exact .cons he .nil

theorem paddedExcerpts_inner_of_rel {o o' : Option Excerpt} {list : Text → List Excerpt}
    (ho : Option.Rel (PaddedExcerpt false) o o')
    (hl : ∀ {s t}, Padded false s t → PaddedExcerpts false (list s) (list t)) :
    PaddedExcerpts false (o.toList.flatMap (·.inner list)) (o'.toList.flatMap (·.inner list)) := by
  cases ho with
  | none => exact .nil
  | some he => simpa using he.inner hl

theorem paddedExcerpts_recordLiterals (h : Padded false s t) :
    PaddedExcerpts false (recordLiterals s) (recordLiterals t) :=
  paddedExcerpts_inner_of_rel (rel_matcherList? h) HeaderMatchers.paddedExcerpts_literals

theorem matchersOf_eq_of_literals (h : Padded false s t)
    (hl : (recordLiterals s).map (·.text) = (recordLiterals t).map (·.text)) :
    matchersOf s = matchersOf t := by
  unfold recordLiterals at hl
  rw [matchersOf_eq, matchersOf_eq]
  rcases cases_of_rel (rel_matcherList? h) with ⟨hs, ht⟩ | ⟨e, f, hs, ht, he⟩
  · rw [hs, ht]
  · rw [hs, ht] at hl ⊢
    simp only [Option.toList_some, List.flatMap_singleton, Excerpt.map_text_inner] at hl
    simp only [Option.bind_some, HeaderMatchers.parse?_eq_of_literals he.text hl]

theorem paddedExcerpts_literals (h : Padded false s t) :
    PaddedExcerpts false (literals s) (literals t) :=
  List.rel_append (paddedExcerpts_toList (rel_bodyLiteral? h))
    (paddedExcerpts_inner_of_rel (rel_record? h) paddedExcerpts_recordLiterals)

end ExpectedExpr

namespace Expected

open ExpectedExpr

variable {s t : Text}

/-- The literals of an expectation, as they are written and where they stand: that of its body and
those of its header matchers. -/
def literals (s : Text) : List Excerpt := (Excerpt.trimmed s).inner ExpectedExpr.literals

theorem source_of_mem_literals (s : Text) : ∀ e ∈ literals s, e.source = s := by
  intro e he
  rw [Excerpt.source_of_mem_inner ExpectedExpr.source_of_mem_literals e he, Excerpt.source_trimmed]

theorem paddedExcerpts_literals {last : Bool} (h : Padded last s t) :
    PaddedExcerpts last (literals s) (literals t) :=
  (PaddedExcerpt.trimmed h).inner ExpectedExpr.paddedExcerpts_literals

/-- **White space at the ends of the lines of an expectation** counts in its literals only. -/
theorem parse?_eq_of_literals {last : Bool} (h : Padded last s t)
    (hl : (literals s).map (·.text) = (literals t).map (·.text)) :
    Expected.parse? s = Expected.parse? t := by
  have ht := h.trim
  simp only [literals, Excerpt.map_text_inner, Excerpt.text_trimmed, ExpectedExpr.literals,
    List.map_append] at hl
  obtain ⟨hbody, hrest⟩ :=
    List.append_inj hl (paddedExcerpts_toList (rel_bodyLiteral? ht)).length_map_text
  replace hbody : (bodyLiteral? (trim s)).map (·.text) = (bodyLiteral? (trim t)).map (·.text) := by
    cases hs : bodyLiteral? (trim s) <;> cases ht : bodyLiteral? (trim t) <;> simp_all
  have hempty : (trim s).isEmpty = (trim t).isEmpty := by
    rw [Bool.eq_iff_iff, List.isEmpty_iff, List.isEmpty_iff]
    exact ht.eq_nil
  have hdigits : (trim s).all Char.isDigit = (trim t).all Char.isDigit :=
    ht.all_eq (by decide) (by decide)
  unfold Expected.parse?
  simp only [hempty, hdigits, body?_eq_of_literal ht hbody]
  split
  · rcases cases_of_rel ht.natural? with ⟨hn, hn'⟩ | ⟨p, q, hn, hn', hp⟩
    · rw [hn, hn']
    · obtain ⟨k, r⟩ := p
      obtain ⟨k', r'⟩ := q
      obtain rfl : k = k' := hp.1
      rw [hn, hn']
      rfl
  · rw [attributes?_eq, attributes?_eq]
    rcases cases_of_rel (rel_record? ht) with ⟨hs, ht'⟩ | ⟨e, f, hs, ht', he⟩
    · rw [hs, ht']
    · rw [hs, ht'] at hrest ⊢
      simp only [Option.toList_some, List.flatMap_singleton, Excerpt.map_text_inner] at hrest
      simp only [Option.map_some, statusOf?_eq he.text, matchersOf_eq_of_literals he.text hrest]

end Expected

end SpecHarvest
