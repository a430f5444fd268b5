import SpecHarvest.Proofs.Extraction.Outcome
import SpecHarvest.Proofs.Source.Comment
import SpecHarvest.Proofs.Source.Reader
import SpecHarvest.Proofs.Text.Blank

/-!
# The front of a block

A block starts with the declaration of its test: `it` and a literal, both on the first line.

* `IsTestHead t`: `t` is such a declaration, up to the quote that closes the literal.
* `afterTitle?` is the text after it (`IsTestHead.afterTitle?_append`).
* `exists_testHead`: the text of a block of a source starts with one, also without its comments.
-/

namespace SpecHarvest

open Text Source

/-! ## Declarations of tests -/

/-- The text after the declaration of a test. -/
def afterTitle? (s : Text) : Option Text := do
  let s ← blanks? (← after? "it".toList (trimStart s))
  return (← quoted? s).2

/-- The declaration of a test, with the white space before it. -/
def IsTestHead (t : Text) : Prop :=
  ∃ indent b gap raw, t = indent ++ ("it".toList ++ b :: (gap ++ '"' :: (raw ++ ['"']))) ∧
    allBlank indent = true ∧ isBlank b = true ∧ allBlank gap = true ∧
    ∀ y, closeQuote? (raw ++ '"' :: y) = some (raw, y)

namespace IsTestHead

variable {t : Text}

theorem exists_trimStart_append (h : IsTestHead t) (y : Text) : ∃ b gap raw,
    trimStart (t ++ y) = "it".toList ++ b :: (gap ++ '"' :: (raw ++ '"' :: y)) ∧
      isBlank b = true ∧ allBlank gap = true ∧ closeQuote? (raw ++ '"' :: y) = some (raw, y) := by
  obtain ⟨indent, b, gap, raw, rfl, hi, hb, hg, hq⟩ := h
  refine ⟨b, gap, raw, ?_, hb, hg, hq y⟩
  rw [List.append_assoc, trimStart_append_of_allBlank hi, trimStart]
  simp [show isBlank 'i' = false by decide]

theorem afterTitle?_append (h : IsTestHead t) (y : Text) : afterTitle? (t ++ y) = some y := by
  obtain ⟨b, gap, raw, ht, hb, hg, hq⟩ := h.exists_trimStart_append y
  have hgap : trimStart (gap ++ '"' :: (raw ++ '"' :: y)) = '"' :: (raw ++ '"' :: y) := by
    rw [trimStart_append_of_allBlank hg]
    simp [trimStart, show isBlank '"' = false by decide]
  simp [afterTitle?, ht, after?_eq_some_iff.2, blanks?, hb, hgap, quoted?, hq]

theorem startsRequest_append (h : IsTestHead t) (y : Text) : startsRequest (t ++ y) = false := by
  obtain ⟨b, gap, raw, ht, -⟩ := h.exists_trimStart_append y
  rw [startsRequest, ht]
  rfl

theorem getLast?_eq (h : IsTestHead t) : t.getLast? = some '"' := by
  obtain ⟨indent, b, gap, raw, rfl, -⟩ := h
  simp [List.getLast?_append, List.getLast?_cons]

end IsTestHead

/-! ## Lines that declare a test -/

theorem exists_of_binding? {s : Text} {k : LineKind} (h : Line.binding? s = some k) :
    ∃ name expr, k = .binding name expr := by
  simp only [Line.binding?, Option.bind_eq_bind, Option.bind_eq_some_iff, Prod.exists] at h
  obtain ⟨_, _, _, _, name, _, _, rest, _, he⟩ := h
  split at he
  · cases he
  · exact ⟨name, trim rest, (Option.some.inj he).symm⟩

theorem declared?_of_kindOf {s title : Text} (h : Line.kindOf s = .test title) :
    Line.declared? ["it".toList] s = some title := by
  unfold Line.kindOf at h
  split at h
  · cases h
  -- the first of the three readers that succeeds is the one of tests
  have hk := (Option.getD_eq_iff.1 h).resolve_right (by simp)
  rcases Option.or_eq_some_iff.1 hk with hb | ⟨-, hk⟩
  · obtain ⟨name, expr, he⟩ := exists_of_binding? hb
    cases he
  rcases Option.or_eq_some_iff.1 hk with hs | ⟨-, ht⟩
  · obtain ⟨u, -, he⟩ := Option.map_eq_some_iff.1 hs
    cases he
  · obtain ⟨u, hu, he⟩ := Option.map_eq_some_iff.1 ht
    obtain rfl := LineKind.test.inj he
    exact hu

theorem exists_of_blanks? {s r : Text} (h : blanks? s = some r) :
    ∃ b gap, s = b :: (gap ++ r) ∧ isBlank b = true ∧ allBlank gap = true := by
  obtain ⟨⟨⟨g, hne, hg⟩, rfl⟩, -⟩ := blanks?_eq_some_iff.1 h
  obtain ⟨b, gap, rfl⟩ := List.exists_cons_of_ne_nil hne
  rw [allBlank, List.all_cons, Bool.and_eq_true] at hg
  exact ⟨b, gap, rfl, hg⟩

theorem isPlain_of_mem_it : ∀ c ∈ "it".toList, IsPlain c := by
  simp [IsPlain]

/-- A line that declares a test is a declaration and a rest, of which only the rest may hold a
comment. -/
theorem Line.exists_testHead {l : Line} {title : Text} (h : l.kind = .test title) :
    ∃ t rest, l.text = t ++ rest ∧ IsTestHead t ∧
      (stripFrom .code l.text).1 = t ++ (stripFrom .code rest).1 := by
  have hd := declared?_of_kindOf h
  simp only [declared?, List.findSome?_singleton, Option.bind_eq_bind, Option.bind_eq_some_iff,
    Option.pure_def, Option.some.injEq, Prod.exists] at hd
  obtain ⟨u, hu, v, hv, raw, rest, hq, -⟩ := hd
  obtain ⟨b, gap, rfl, hb, hg⟩ := exists_of_blanks? hv
  obtain ⟨indent, hi, ht⟩ : ∃ indent, allBlank indent = true ∧
      l.text = (indent ++ ("it".toList ++ b :: gap)) ++ v := by
    refine ⟨l.text.takeWhile Text.isBlank, allBlank_takeWhile l.text, ?_⟩
    rw [List.append_assoc, List.append_assoc, List.cons_append, ← after?_eq_some_iff.1 hu,
      takeWhile_append_trimStart]
  have hplain : ∀ c ∈ indent ++ ("it".toList ++ b :: gap), IsPlain c := by
    intro c hc
    simp only [List.mem_append, List.mem_cons] at hc
    rcases hc with hc | hc | rfl | hc
    · exact isPlain_of_allBlank hi c hc
    · exact isPlain_of_mem_it c hc
    · exact isPlain_of_isBlank hb
    · exact isPlain_of_allBlank hg c hc
  obtain ⟨hraw, hv⟩ := quoted?_eq_some_iff.1 hq
  refine ⟨indent ++ ("it".toList ++ b :: (gap ++ '"' :: (raw ++ ['"']))), rest, ?_,
    ⟨indent, b, gap, raw, rfl, hi, hb, hg, hraw.closeQuote?⟩, ?_⟩
  · rw [ht, hv]
    simp
  · rw [ht, stripFrom_code_quoted hplain hq]
    simp

/-! ## Blocks of a source -/

/-- A block is that of a line that declares a test, in the context in which it is found. -/
theorem mem_segmentLines {c c' : Context} {ls : List Line} {b : Block}
    (h : (b, c') ∈ (segmentLines c ls).1) :
    ∃ l ∈ ls, ∃ title body, l.kind = .test title ∧ b = Block.of c' title l body := by
  fun_induction segmentLines c ls with
  | case1 => simp at h
  | case2 c l ls hk ih =>
    obtain ⟨m, hm, hb⟩ := ih h
    exact ⟨m, by simp [hm], hb⟩
  | case3 c l ls name expr hk ih =>
    obtain ⟨m, hm, hb⟩ := ih h
    exact ⟨m, by simp [hm], hb⟩
  | case4 c l ls text hk ih =>
    obtain ⟨m, hm, hb⟩ := ih h
    exact ⟨m, by simp [hm], hb⟩
  | case5 c l ls text hk c₁ block blocks last hs ih =>
    rcases List.mem_cons.1 h with he | h
    · obtain ⟨rfl, rfl⟩ := Prod.mk.inj he
      exact ⟨l, by simp, text, _, hk, rfl⟩
    · obtain ⟨m, hm, hb⟩ := ih (by rw [hs]; exact h)
      exact ⟨m, List.mem_cons_of_mem _ ((List.dropWhile_suffix _).subset hm), hb⟩

theorem not_mem_of_mem_all {source : Text} {l : Line} (h : l ∈ Line.all source) :
    '\n' ∉ l.text := by
  obtain ⟨i, hi, rfl⟩ := List.mem_mapIdx.1 h
  exact not_mem_of_mem_lines (List.getElem_mem hi)

/-- **Every block of a source starts with the declaration of its test**, which is one line and lies
outside of comments. -/
theorem exists_testHead {source : Text} {b : Block} {c : Context}
    (h : (b, c) ∈ (segment source).1) :
    ∃ t rest, b.code = t ++ rest ∧ IsTestHead t ∧ '\n' ∉ t := by
  obtain ⟨l, hl, title, body, hk, rfl⟩ := mem_segmentLines h
  obtain ⟨t, rest, ht, hhead, hstrip⟩ := Line.exists_testHead hk
  have hn := not_mem_of_mem_all hl
  obtain ⟨y, hy, hstart⟩ := exists_unlines_cons l.text (body.map (·.text))
  obtain ⟨more, hm⟩ := exists_stripComments_append hn hstart
  refine ⟨t, (stripFrom .code rest).1 ++ more, ?_, hhead, fun hc => hn (by simp [ht, hc])⟩
  rw [Block.code, Block.of, List.map_cons, hy, hm, hstrip, List.append_assoc]

end SpecHarvest
