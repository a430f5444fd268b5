import SpecHarvest.Proofs.Block.Leaf
import SpecHarvest.Proofs.Block.Segment
import SpecHarvest.Proofs.Text.Collapse

/-!
# Sources put together

A source is read line by line and never ahead, so what a source yields is the start of what it
yields with more lines after it, if the first of these is not indented and so continues no block.

* `segmentLines_append`: the lines after it are read in the context that the lines before it leave.
* `segmentLines_declaration`: a declaration that is not indented closes all scopes, so that only the
  bindings of that context are left.
* `segmentLines_shift`: the numbers of the lines are carried through.
* `ofSource_append`: hence the extraction from both is the extraction from the first one, and what
  follows is that from the second one if the first one binds no name.
-/

namespace SpecHarvest

open Text Source

/-! ## Lines moved down -/

/-- A line moved down. -/
def Line.shift (n : Nat) (l : Line) : Line := { l with number := l.number + n }

/-- A block moved down. -/
def Block.shift (n : Nat) (b : Block) : Block := { b with line := b.line + n }

/-- A flagged test moved down. -/
def FlaggedTest.shift (n : Nat) (f : FlaggedTest) : FlaggedTest := { f with line := f.line + n }

/-- The outcome of a block moved down. -/
def Outcome.shift (n : Nat) : Outcome → Outcome
  | .test t => .test t
  | .flagged f => .flagged (f.shift n)

theorem lines_append_newline (s t : Text) : lines (s ++ '\n' :: t) = lines s ++ lines t :=
  pieces_append_cons rfl s t

theorem all_append_newline (s t : Text) :
    Line.all (s ++ '\n' :: t) = Line.all s ++ (Line.all t).map (Line.shift (lines s).length) := by
  unfold Line.all
  rw [lines_append_newline, List.mapIdx_append]
  congr 1
  refine List.ext_getElem? fun i => ?_
  simp [Line.shift, Function.comp_def, Nat.add_right_comm]

/-! ## Blocks of lines put together -/

/-- A line that is neither blank nor indented. -/
def Line.IsFlush (l : Line) : Prop := l.isBlank = false ∧ l.indent = 0

theorem Line.IsFlush.continues {l : Line} (h : l.IsFlush) (depth : Nat) :
    l.continues depth = false := by
  simp [Line.continues, h.1, h.2]

theorem takeWhile_append_of_head {p : Line → Bool} {ls ms : List Line}
    (h : ∀ m, ms.head? = some m → p m = false) :
    (ls ++ ms).takeWhile p = ls.takeWhile p ∧ (ls ++ ms).dropWhile p = ls.dropWhile p ++ ms := by
  induction ls with
  | nil =>
    cases ms with
    | nil => exact ⟨rfl, rfl⟩
    | cons m ms => simp [h m rfl]
  | cons l ls ih => cases hl : p l <;> simp [hl, ih]

/-- **Lines are not read ahead.** -/
theorem segmentLines_append {c : Context} {ls ms : List Line}
    (h : ∀ m, ms.head? = some m → m.IsFlush) :
    (segmentLines c (ls ++ ms)).1 =
      (segmentLines c ls).1 ++ (segmentLines (segmentLines c ls).2 ms).1 := by
  fun_induction segmentLines c ls with
  | case1 c => simp
  | case2 c l ls hk ih => simpa [segmentLines, hk] using ih
  | case3 c l ls name expr hk ih => simpa [segmentLines, hk] using ih
  | case4 c l ls text hk ih => simpa [segmentLines, hk] using ih
  | case5 c l ls title hk c₁ block blocks last hs ih =>
    have hsplit : (ls ++ ms).takeWhile (·.continues l.indent) = ls.takeWhile _ ∧
        (ls ++ ms).dropWhile _ = ls.dropWhile _ ++ ms :=
      takeWhile_append_of_head fun m hm => (h m hm).continues l.indent
    obtain ⟨ht, hd⟩ := hsplit
    rw [hs] at ih
    rw [List.cons_append, segmentLines, hk]
    simp only [ht, hd, List.cons_append, List.cons.injEq]
    exact ⟨rfl, ih⟩

/-- The scopes are closed by a declaration that is not indented. -/
theorem segmentLines_declaration {c : Context} {l : Line} {ls : List Line} (hl : l.indent = 0)
    (hd : l.declares = true) :
    segmentLines c (l :: ls) = segmentLines ⟨[], c.bindings⟩ (l :: ls) := by
  have hclose : c.close 0 = (Context.mk [] c.bindings).close 0 := by
    simp [Context.close]
  unfold Line.declares at hd
  cases hk : l.kind with
  | other => simp [hk] at hd
  | binding name expr => simp [hk] at hd
  | scope text =>
    have hopen : c.openScope 0 text = (Context.mk [] c.bindings).openScope 0 text := by
      simp only [Context.openScope, hclose]
    rw [segmentLines, segmentLines, hk]
    simp only [hl, hopen]
  | test title =>
    rw [segmentLines, segmentLines, hk]
    simp only [hl, hclose]

theorem segmentLines_shift (n : Nat) (c : Context) (ls : List Line) :
    segmentLines c (ls.map (Line.shift n)) =
      ((segmentLines c ls).1.map fun p => (p.1.shift n, p.2), (segmentLines c ls).2) := by
  fun_induction segmentLines c ls with
  | case1 c => simp [segmentLines]
  | case2 c l ls hk ih =>
    have hk' : (l.shift n).kind = .other := hk
    simpa [segmentLines, hk'] using ih
  | case3 c l ls name expr hk ih =>
    have hk' : (l.shift n).kind = .binding name expr := hk
    simpa [segmentLines, hk'] using ih
  | case4 c l ls text hk ih =>
    have hk' : (l.shift n).kind = .scope text := hk
    have hi : (l.shift n).indent = l.indent := rfl
    simpa [segmentLines, hk', hi] using ih
  | case5 c l ls title hk c₁ block blocks last hs ih =>
    have hk' : (l.shift n).kind = .test title := hk
    have hi : (l.shift n).indent = l.indent := rfl
    have hcont : (fun m : Line => m.continues l.indent) ∘ Line.shift n =
        (·.continues l.indent) := rfl
    have htext : (fun m : Line => m.text) ∘ Line.shift n = (·.text) := rfl
    have hclose : c.close l.indent = c₁ := rfl
    rw [hs] at ih
    rw [List.map_cons, segmentLines, hk']
    simp only [hi, List.takeWhile_map, List.dropWhile_map, hcont, hclose, ih, List.map_cons]
    simp [block, Block.of, Block.shift, Line.shift, htext]

/-! ## Outcomes -/

theorem Block.outcomes_shift (n : Nat) (b : Block) (bindings : Bindings) :
    (b.shift n).outcomes bindings = (b.outcomes bindings).map (Outcome.shift n) := by
  have href : (b.shift n).refusal? = b.refusal? := rfl
  have hparts : (b.shift n).parts = b.parts := rfl
  have hcode : (b.shift n).code = b.code := rfl
  cases hr : b.refusal? with
  | some r =>
    rw [outcomes_of_refusal hr, outcomes_of_refusal (href.trans hr)]
    rfl
  | none =>
    have hat : ∀ i, (b.shift n).outcomeAt bindings i =
        Outcome.shift n ∘ b.outcomeAt bindings i := by
      intro i
      funext part
      unfold Function.comp outcomeAt outcomeOf
      rw [hcode]
      cases parseAssertion? bindings part <;> split <;> rfl
    rw [outcomes_of_accepted hr, outcomes_of_accepted (href.trans hr), hparts]
    refine List.ext_getElem? fun i => ?_
    simp [hat]

theorem test?_shift (n : Nat) (o : Outcome) : (o.shift n).test? = o.test? := by
  cases o <;> rfl

theorem flagged?_shift (n : Nat) (o : Outcome) :
    (o.shift n).flagged? = o.flagged?.map (FlaggedTest.shift n) := by
  cases o <;> rfl

/-- The outcomes of lines that are read in a context. -/
def outcomesFrom (c : Context) (ls : List Line) : List Outcome :=
  (segmentLines c ls).1.flatMap fun p => p.1.outcomes p.2.bindings

theorem outcomesOf_eq (source : Text) : outcomesOf source = outcomesFrom .empty (Line.all source) :=
  rfl

theorem outcomesFrom_shift (n : Nat) (c : Context) (ls : List Line) :
    outcomesFrom c (ls.map (Line.shift n)) = (outcomesFrom c ls).map (Outcome.shift n) := by
  simp only [outcomesFrom, segmentLines_shift, List.flatMap_map, Block.outcomes_shift,
    List.map_flatMap]

theorem outcomesOf_append {s t : Text} (h : ∀ l, (Line.all t).head? = some l → l.IsFlush) :
    outcomesOf (s ++ '\n' :: t) = outcomesOf s ++
      (outcomesFrom (segment s).2 (Line.all t)).map (Outcome.shift (lines s).length) := by
  have hflush : ∀ m, ((Line.all t).map (Line.shift (lines s).length)).head? = some m →
      m.IsFlush := by
    intro m hm
    rw [List.head?_map, Option.map_eq_some_iff] at hm
    obtain ⟨l, hl, rfl⟩ := hm
    exact h l hl
  rw [← outcomesFrom_shift, outcomesOf_eq, all_append_newline, outcomesFrom,
    segmentLines_append hflush, List.flatMap_append]
  rfl

/-- **Sources put together.** If the first line of a source is neither blank nor indented, what is
extracted from the lines before it is where the extraction from all lines starts. If it is a
declaration, too, and no name is bound before it, then what is extracted from the source itself,
moved down by the lines before it, is all that follows. -/
theorem ofSource_append (filename config s t : Text) {l : Line}
    (hl : (Line.all t).head? = some l) (hf : l.IsFlush) :
    let first := Extraction.ofSource filename s config
    let second := Extraction.ofSource filename t config
    let both := Extraction.ofSource filename (s ++ '\n' :: t) config
    first.tests <+: both.tests ∧ first.flagged <+: both.flagged ∧
      (l.declares = true → (segment s).2.bindings = [] →
        both.tests = first.tests ++ second.tests ∧
        both.flagged =
          first.flagged ++ second.flagged.map (FlaggedTest.shift (lines s).length)) := by
  intro first second both
  have hflush : ∀ l', (Line.all t).head? = some l' → l'.IsFlush := by
    intro l' hl'
    rw [hl, Option.some.injEq] at hl'
    exact hl' ▸ hf
  have hboth := outcomesOf_append (s := s) hflush
  refine ⟨?_, ?_, fun hd hb => ?_⟩
  · show (outcomesOf s).filterMap _ <+: (outcomesOf _).filterMap _
    rw [hboth, List.filterMap_append]
    exact List.prefix_append _ _
  · show (outcomesOf s).filterMap _ <+: (outcomesOf _).filterMap _
    rw [hboth, List.filterMap_append]
    exact List.prefix_append _ _
  · have hsecond : outcomesFrom (segment s).2 (Line.all t) = outcomesOf t := by
      obtain ⟨ls, hls⟩ := List.head?_eq_some_iff.1 hl
      rw [outcomesOf_eq, hls, outcomesFrom, segmentLines_declaration hf.2 hd, hb]
      rfl
    rw [hsecond] at hboth
    constructor
    · show (outcomesOf _).filterMap _ = (outcomesOf s).filterMap _ ++ (outcomesOf t).filterMap _
      simp [hboth, List.filterMap_map, test?_shift]
    · show (outcomesOf _).filterMap _ =
        (outcomesOf s).filterMap _ ++ ((outcomesOf t).filterMap _).map _
      simp [hboth, List.filterMap_map, flagged?_shift, List.map_filterMap]

/-- Two tests in a scope, of which one makes no assertion. -/
def scopedTests : Text :=
  unlines ["describe \"a\" $ do".toList, "  it \"x\" $ get \"/a\" `shouldRespondWith` 200".toList,
    "  it \"y\" $ pure ()".toList]

/-- Two tests outside of scopes, of which one makes no assertion. -/
def outerTests : Text :=
  unlines ["it \"z\" $ get \"/b\" `shouldRespondWith` 404".toList, "it \"w\" $ pure ()".toList]

/-- The line that `outerTests` starts with. -/
def outerLine : Line := ⟨1, "it \"z\" $ get \"/b\" `shouldRespondWith` 404".toList⟩

theorem ofSource_append_outerTests :
    let first := Extraction.ofSource [] scopedTests []
    let second := Extraction.ofSource [] outerTests []
    let both := Extraction.ofSource [] (scopedTests ++ '\n' :: outerTests) []
    outerLine.IsFlush ∧ outerLine.declares = true ∧ (segment scopedTests).2.bindings = [] ∧
      first.tests <+: both.tests ∧ first.flagged <+: both.flagged ∧
      both.tests = first.tests ++ second.tests ∧
      both.flagged = first.flagged ++ second.flagged.map (FlaggedTest.shift 3) ∧
      both.tests.map (·.description) = [[['a'], ['x']], [['z']]] ∧
      both.flagged.map (fun f => (f.description, f.line)) = [([['a'], ['y']], 3), ([['w']], 5)] := by
  intro first second both
  have hl : (Line.all outerTests).head? = some outerLine := by decide +kernel
  have hf : outerLine.IsFlush := ⟨by decide +kernel, by decide +kernel⟩
  have hd : outerLine.declares = true := by decide +kernel
  have hb : (segment scopedTests).2.bindings = [] := by decide +kernel
  have hlines : (lines scopedTests).length = 3 := by decide +kernel
  obtain ⟨htests, hflagged, hall⟩ := ofSource_append [] [] scopedTests outerTests hl hf
  obtain ⟨htests', hflagged'⟩ := hall hd hb
  rw [hlines] at hflagged'
  refine ⟨hf, hd, hb, htests, hflagged, htests', hflagged', ?_, ?_⟩
  · show (Extraction.ofSource [] (scopedTests ++ '\n' :: outerTests) []).tests.map _ = _
    rw [htests']
    decide +kernel
  · show (Extraction.ofSource [] (scopedTests ++ '\n' :: outerTests) []).flagged.map _ = _
    rw [hflagged']
    decide +kernel

end SpecHarvest
