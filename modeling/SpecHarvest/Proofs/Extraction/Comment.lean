import SpecHarvest.Proofs.Assertion.Padding
import SpecHarvest.Proofs.Block.Comment
import SpecHarvest.Proofs.Block.Segment
import SpecHarvest.Proofs.ExpectedExpr.Literal
import SpecHarvest.Proofs.Extraction.Outcome
import SpecHarvest.Proofs.Extraction.Splitting

/-!
# Comments after lines

A comment put after a line of a source leaves the tests as they are, where the readers of the line
are in code at its end.

* `Block.literals` are the literals of the expectations of a block and where they stand.
  `Block.InLiteral`: the line feed at the end of a line is a character of one of them.
* `PaddedBlock.map_text_literals_eq_iff`: a space there changes the literal, and everywhere else all
  literals stay the same. `PaddedBlock.tests_eq`: the literals decide which tests a block yields.
* `EndsInCode`: no reader of a line is inside a literal at its end.
* `tests_commentAt`: a comment does no harm there, but after a binding of a header expression, which
  it becomes a part of, and after the word `request` alone on its line, which the space before it
  makes the start of a request.
-/

namespace SpecHarvest

open Text Source

/-! ## Spaces at the ends of lines -/

/-- A text with a space at the end of one of its lines. -/
def spaceAt (k : Nat) (s : Text) : Text := unlines ((lines s).modify k (· ++ [' ']))

/-- The offset of the end of a line, which is that of the line feed after it, if there is one. -/
def lineEnd (k : Nat) (s : Text) : Nat := (unlines ((lines s).take (k + 1))).length

theorem spaced_modify {ls : List Text} {k : Nat} (hk : k < ls.length) :
    Spaced (unlines (ls.take (k + 1))).length (unlines ls)
      (unlines (ls.modify k (· ++ [' ']))) := by
  induction ls generalizing k with
  | nil => cases hk
  | cons l ls ih =>
    cases k with
    | zero =>
      rw [List.modify_zero_cons, List.take_succ_cons, List.take_zero, unlines_singleton]
      by_cases hls : ls = []
      · subst hls
        exact ⟨l, [], by simp [unlines_singleton], by simp [unlines_singleton], rfl, .inl rfl⟩
      · refine ⟨l, '\n' :: unlines ls, unlines_cons hls l, ?_, rfl, .inr ⟨_, rfl⟩⟩
        simp [unlines_cons hls]
    | succ k =>
      have hlt : k < ls.length := Nat.lt_of_succ_lt_succ hk
      have hls : ls ≠ [] := List.ne_nil_of_length_pos (Nat.zero_lt_of_lt hlt)
      have hmodify : ls.modify k (· ++ [' ']) ≠ [] := by simpa using hls
      have htake : ls.take (k + 1) ≠ [] := by simpa using hls
      obtain ⟨u, v, hs, ht, hn, hv⟩ := ih hlt
      refine ⟨l ++ '\n' :: u, v, ?_, ?_, ?_, hv⟩
      · simp [unlines_cons hls, hs]
      · simp [unlines_cons hmodify, ht]
      · simp [unlines_cons htake, hn]

theorem spaced_spaceAt {s : Text} {k : Nat} (hk : k < (lines s).length) :
    Spaced (lineEnd k s) s (spaceAt k s) := by
  have h := spaced_modify hk
  rwa [unlines_lines] at h

theorem spacedLines_modify {ls : List Text} {k : Nat}
    (h : ∀ l, ls[k]? = some l → trimStart l ≠ "request".toList) :
    SpacedLines ls (ls.modify k (· ++ [' '])) := by
  induction ls generalizing k with
  | nil =>
    rw [List.modify_nil]
    exact .nil
  | cons l ls ih =>
    cases k with
    | zero =>
      rw [List.modify_zero_cons]
      exact .cons (.inr ⟨rfl, h l rfl⟩) (List.forall₂_same.2 fun _ _ => .inl rfl)
    | succ k =>
      rw [List.modify_succ_cons]
      exact .cons (.inl rfl) (ih fun m hm => h m hm)

/-! ## Assertions -/

theorem RequestExpr.resolve?_eq_of_readAlike {bindings bindings' : Bindings}
    (h : HeaderExpr.ReadAlike bindings bindings') (e : RequestExpr) :
    e.resolve? bindings = e.resolve? bindings' := by
  cases e with
  | get path => rfl
  | post path body => rfl
  | general method path arguments => simp only [resolve?, h.resolveList?_eq]

/-- The literals of the expectation of a text that makes one assertion. -/
def assertionLiterals (s : Text) : List Excerpt :=
  ((cut? separator s).map fun (front, rest) =>
    (Expected.literals rest).map (·.between (front ++ separator) [])).getD []

theorem source_of_mem_assertionLiterals (s : Text) : ∀ e ∈ assertionLiterals s, e.source = s := by
  intro e he
  unfold assertionLiterals at he
  cases hc : cut? separator s with
  | none =>
    rw [hc] at he
    cases he
  | some p =>
    obtain ⟨front, rest⟩ := p
    rw [hc] at he
    obtain ⟨e, hm, rfl⟩ := List.mem_map.1 he
    rw [Excerpt.source_between, Expected.source_of_mem_literals rest e hm, List.append_nil,
      eq_of_cut? hc, List.append_assoc]

theorem rel_separator {last : Bool} {s t : Text} (h : Padded last s t) :
    Option.Rel (PaddedPair last) (cut? separator s) (cut? separator t) :=
  h.cut? (by decide) (by decide)

theorem paddedExcerpts_assertionLiterals {last : Bool} {s t : Text} (h : Padded last s t) :
    PaddedExcerpts last (assertionLiterals s) (assertionLiterals t) := by
  unfold assertionLiterals
  rcases cases_of_rel (rel_separator h) with ⟨hs, ht⟩ | ⟨p, q, hs, ht, hp⟩
  · rw [hs, ht]
    exact .nil
  · rw [hs, ht]
    exact (Expected.paddedExcerpts_literals hp.2).behind (hp.1.append (.refl false separator))

theorem parseAssertion?_eq_of_literals {last : Bool} {s t : Text} (h : Padded last s t)
    (hl : (assertionLiterals s).map (·.text) = (assertionLiterals t).map (·.text))
    {bindings bindings' : Bindings} (hb : HeaderExpr.ReadAlike bindings bindings') :
    parseAssertion? bindings s = parseAssertion? bindings' t := by
  unfold assertionLiterals at hl
  unfold parseAssertion?
  rcases cases_of_rel (rel_separator h) with ⟨hs, ht⟩ | ⟨⟨front, rest⟩, ⟨front', rest'⟩, hs, ht, hp⟩
  · rw [hs, ht]
    simp only [Option.bind_eq_bind, Option.bind_none]
  · rw [hs, ht] at hl ⊢
    simp only [Option.map_some, Option.getD_some, List.map_map, Function.comp_def,
      Excerpt.text_between] at hl
    have hrequest : Request.parse? bindings front = Request.parse? bindings' front' := by
      rw [Request.parse?, Request.parse?, hp.1.collapse_eq]
      rw [funext (RequestExpr.resolve?_eq_of_readAlike hb)]
    have hexpected := Expected.parse?_eq_of_literals hp.2 hl
    simp only [Option.bind_eq_bind, Option.bind_some, hrequest, hexpected]

/-! ## Blocks -/

namespace Block

/-- The literals of the expectations of a block, in its text without the comments. -/
def literals (b : Block) : List Excerpt := excerptsOf assertionLiterals [] b.lead b.parts

theorem source_of_mem_literals (b : Block) : ∀ e ∈ b.literals, e.source = b.code := by
  intro e he
  rw [source_of_mem_excerptsOf source_of_mem_assertionLiterals e he, nil_intercalate,
    lead_append_parts]

theorem map_text_literals (b : Block) : b.literals.map (·.text) =
    b.parts.flatMap fun part => (assertionLiterals part).map (·.text) := map_text_excerptsOf

/-- The end of a line of a block lies in a literal of an expectation: the line feed there is one of
its characters. -/
def InLiteral (b : Block) (k : Nat) : Prop := ∃ e ∈ b.literals, e.Covers (lineEnd k b.code)

instance (b : Block) : DecidablePred b.InLiteral :=
  fun _ => inferInstanceAs (Decidable (∃ _ ∈ _, _))

/-- The description of a part, given its place. -/
def descriptionAt (b : Block) (i : Nat) : List Text :=
  if occurrences separator b.code < 2 then b.description else numbered b.description (i + 1)

variable {b : Block} {bindings : Bindings}

theorem test?_outcomeAt (i : Nat) (part : Text) : (b.outcomeAt bindings i part).test? =
    (parseAssertion? bindings part).map fun p => ⟨b.descriptionAt i, p.1, p.2⟩ := by
  unfold outcomeAt outcomeOf descriptionAt
  cases parseAssertion? bindings part <;> split <;> rfl

/-- The test cases of a block are those of the assertions that its parts state. -/
theorem filterMap_test?_outcomes (b : Block) (bindings : Bindings) :
    (b.outcomes bindings).filterMap Outcome.test? =
      if b.refusal? = none then
        ((b.parts.map (parseAssertion? bindings)).mapIdx fun i assertion =>
          assertion.map fun p => (⟨b.descriptionAt i, p.1, p.2⟩ : TestCase)).filterMap id
      else [] := by
  cases hr : b.refusal? with
  | some r =>
    rw [outcomes_of_refusal hr]
    rfl
  | none =>
    have hmap : ((b.parts.map (parseAssertion? bindings)).mapIdx fun i assertion =>
        assertion.map fun p => (⟨b.descriptionAt i, p.1, p.2⟩ : TestCase)) =
        (b.parts.mapIdx (b.outcomeAt bindings)).map Outcome.test? := by
      refine List.ext_getElem? fun i => ?_
      simp [List.getElem?_mapIdx, test?_outcomeAt, Function.comp_def]
    rw [if_pos rfl, outcomes_of_accepted hr, hmap, List.filterMap_map]
    rfl

end Block

/-- A block and one with spaces at the ends of its lines that is cut into parts in the same places. -/
structure PaddedBlock (b b' : Block) : Prop where
  description : b'.description = b.description
  code : Padded true b.code b'.code
  lead : Padded false b.lead b'.lead
  parts : PaddedTexts true b.parts b'.parts

namespace PaddedBlock

variable {b b' : Block} {bindings bindings' : Bindings}

theorem of_code_eq (hd : b'.description = b.description) (h : b'.code = b.code) :
    PaddedBlock b b' := by
  have hlead : b'.lead = b.lead := by rw [Block.lead, Block.lead, h]
  have hparts : b'.parts = b.parts := by rw [Block.parts, Block.parts, h]
  refine ⟨hd, ?_, ?_, ?_⟩
  · rw [h]
    exact .refl true _
  · rw [hlead]
    exact .refl false _
  · rw [hparts]
    exact .of_forall₂ (List.forall₂_same.2 fun _ _ => .refl false _)

theorem occurrences_eq (h : PaddedBlock b b') :
    occurrences separator b'.code = occurrences separator b.code :=
  (h.code.occurrences_eq (by decide) (by decide)).symm

theorem literals (h : PaddedBlock b b') : PaddedExcerpts true b.literals b'.literals :=
  .excerptsOf paddedExcerpts_assertionLiterals h.lead h.parts

theorem any_isMutating_eq (h : PaddedBlock b b') :
    b.parts.any isMutating = b'.parts.any isMutating := by
  have hparts := h.parts.forall₂
  generalize b.parts = ps at hparts
  generalize b'.parts = qs at hparts
  induction hparts with
  | nil => rfl
  | cons hp _ ih => rw [List.any_cons, List.any_cons, hp.isMutating_eq, ih]

theorem refusal?_eq (h : PaddedBlock b b') : b'.refusal? = b.refusal? := by
  unfold Block.refusal?
  rw [h.description, ← h.code.first?_eq, h.occurrences_eq]
  by_cases h2 : 2 ≤ occurrences separator b.code
  · have hspans := h.any_isMutating_eq
    rw [Block.parts, Block.parts, h.occurrences_eq, if_neg (Nat.not_lt.2 h2),
      if_neg (Nat.not_lt.2 h2)] at hspans
    rw [hspans]
  · simp only [h2, false_and, if_false]

/-- **The literals decide** what the parts state. -/
theorem map_parseAssertion?_eq (h : PaddedBlock b b')
    (hl : b'.literals.map (·.text) = b.literals.map (·.text))
    (hb : HeaderExpr.ReadAlike bindings bindings') :
    b.parts.map (parseAssertion? bindings) = b'.parts.map (parseAssertion? bindings') := by
  rw [Block.map_text_literals, Block.map_text_literals] at hl
  refine map_eq_of_flatMap_eq h.parts.forall₂ (fun p q hpq => ⟨?_, fun hpq' => ?_⟩) hl.symm
  · exact (paddedExcerpts_assertionLiterals hpq).length_map_text
  · exact parseAssertion?_eq_of_literals hpq hpq' hb

/-- **Blocks with the same literals** yield the same test cases. -/
theorem tests_eq (h : PaddedBlock b b') (hl : b'.literals.map (·.text) = b.literals.map (·.text))
    (hb : HeaderExpr.ReadAlike bindings bindings') :
    (b'.outcomes bindings').filterMap Outcome.test? =
      (b.outcomes bindings).filterMap Outcome.test? := by
  have hat : b'.descriptionAt = b.descriptionAt := by
    funext i
    unfold Block.descriptionAt
    rw [h.description, h.occurrences_eq]
  rw [Block.filterMap_test?_outcomes, Block.filterMap_test?_outcomes, h.refusal?_eq, hat,
    h.map_parseAssertion?_eq hl hb]

/-- **A space at the end of a line** changes a literal if the end of the line lies in it, and leaves
all literals as they are otherwise. -/
theorem map_text_literals_eq_iff (h : PaddedBlock b b') {k : Nat} (hk : k < (lines b.code).length)
    (hspace : b'.code = spaceAt k b.code) :
    b'.literals.map (·.text) = b.literals.map (·.text) ↔ ¬b.InLiteral k := by
  have hs : Spaced (lineEnd k b.code) b.code b'.code := by
    rw [hspace]
    exact spaced_spaceAt hk
  rw [h.literals.map_text_eq_iff hs b.source_of_mem_literals b'.source_of_mem_literals]
  simp only [Block.InLiteral, not_exists, not_and]

end PaddedBlock

namespace Block

variable {b : Block}

/-! ### A comment after a line of a block -/

theorem lines_code (b : Block) : lines b.code = stripLines false (lines b.text) := by
  refine lines_unlines ?_ (not_mem_of_mem_stripLines fun l hl => not_mem_of_mem_lines hl)
  intro h
  have := congrArg List.length h
  rw [length_stripLines, List.length_nil, List.length_eq_zero_iff] at this
  exact lines_ne_nil _ this

theorem paddedBlock_spaceAt {b' : Block} {k : Nat} (hd : b'.description = b.description)
    (hspace : b'.code = spaceAt k b.code) (hk : k < (lines b.code).length)
    (hrequest : 2 ≤ occurrences separator b.code →
      ∀ l, (lines b.code)[k]? = some l → trimStart l ≠ "request".toList) :
    PaddedBlock b b' := by
  have hcode : Padded true b.code b'.code := by
    obtain ⟨u, v, hs, ht, -, hv⟩ := spaced_spaceAt hk
    rw [hspace, ht, hs]
    exact .of_space u hv
  have hcount : occurrences separator b.code = occurrences separator b'.code :=
    hcode.occurrences_eq (by decide) (by decide)
  have hparts : Padded false b.lead b'.lead ∧ PaddedTexts true b.parts b'.parts := by
    unfold lead parts
    rw [← hcount]
    split
    · exact ⟨.nil, .single hcode⟩
    · rename_i h2
      have hspaced := spacedLines_modify (hrequest (Nat.not_lt.1 h2))
      have h := paddedTexts_assertionSpans hspaced fun l hl => not_mem_of_mem_lines hl
      rw [unlines_lines] at h
      rwa [hspace]
  exact ⟨hd, hcode, hparts.1, hparts.2⟩

/-- **A comment after a line of a block** that ends in code: the literals are the same ones, and all
else is read alike. -/
theorem paddedBlock_commentAt {b' : Block} {c : Text} {k : Nat} (hc : '\n' ∉ c)
    (hd : b'.description = b.description)
    (hcomment : b'.code = stripComments (commentAt k c b.text)) (hk : k < (lines b.text).length)
    (hcode : regionAfter false ((lines b.text).take (k + 1)) = .code) (hlit : ¬b.InLiteral k)
    (hrequest : 2 ≤ occurrences separator b.code →
      ∀ l, (lines b.text)[k]? = some l → trimStart l ≠ "request".toList) :
    PaddedBlock b b' ∧ b'.literals.map (·.text) = b.literals.map (·.text) := by
  rw [stripComments, lines_commentAt hc] at hcomment
  rcases stripLines_modify hk hcode c with he | ⟨hkept, he⟩
  · have hcode : b'.code = b.code := by
      rw [hcomment, he]
      rfl
    refine ⟨.of_code_eq hd hcode, ?_⟩
    unfold literals lead parts
    rw [hcode]
  · have hspace : b'.code = spaceAt k b.code := by rw [hcomment, he, spaceAt, lines_code]
    have hlen : k < (lines b.code).length := by rwa [lines_code, length_stripLines]
    have hpadded : PaddedBlock b b' := by
      refine paddedBlock_spaceAt hd hspace hlen fun h2 l hl => ?_
      rw [lines_code, hkept] at hl
      exact hrequest h2 l hl
    exact ⟨hpadded, (hpadded.map_text_literals_eq_iff hlen hspace).2 hlit⟩

theorem withComment_of_not_holds {l : Line} (h : ¬b.Holds l) (c : Text) :
    b.withComment l.number c = b := by
  unfold withComment
  split
  · rename_i hle
    have hout : (lines b.text).length ≤ l.number - b.line := by
      unfold Holds at h
      omega
    have htext : commentAt (l.number - b.line) c b.text = b.text := by
      rw [commentAt, List.modify_eq_self hout, unlines_lines]
    rw [htext]
  · rfl

theorem code_withComment {l : Line} (h : b.Holds l) (c : Text) :
    (b.withComment l.number c).code = stripComments (commentAt (l.number - b.line) c b.text) := by
  unfold withComment
  rw [if_pos h.1]
  rfl

theorem description_withComment (n : Nat) (c : Text) :
    (b.withComment n c).description = b.description := by
  unfold withComment
  split <;> rfl

end Block

/-! ## Sources -/

/-- The readers of a line are in code at its end: that of its own line if no block continues with
it, and in the block that has it the reader of comments and that of the expectations. -/
structure EndsInCode (source : Text) (l : Line) : Prop where
  alone : active (Line.all source) l = true → (stripFrom .code l.text).2 = .code
  inBlock : ∀ b ctx, (b, ctx) ∈ (segment source).1 → b.Holds l →
    regionAfter false ((lines b.text).take (l.number - b.line + 1)) = .code ∧
      ¬b.InLiteral (l.number - b.line)

theorem Line.CanTrail.of_endsInCode {source : Text} {l : Line} (hl : l ∈ Line.all source)
    (hblank : l.isBlank = false) (hend : EndsInCode source l)
    (hbind : active (Line.all source) l = true → startsBinding (trimStart l.text) = true →
      l.BindsUnread) : CanTrail source l.number := by
  have hself : ∀ m ∈ Line.all source, m.number = l.number → m = l := by
    intro m hm hn
    exact (numbered_all source).eq_of_number hm hl hn
  refine ⟨fun m hm hn => ?_, fun m hm hn ha => ?_⟩
  · rw [hself m hm hn]
    exact hblank
  · rw [hself m hm hn] at ha ⊢
    exact ⟨hend.alone ha, hbind ha⟩

/-- A block yields the same test cases with a comment after one of its lines, and all the more if
the line is not one of them. -/
theorem TrailedBlock.tests_eq {source c : Text} {l : Line} {b b' : Block} {ctx ctx' : Context}
    (h : TrailedBlock l.number c (b, ctx) (b', ctx')) (hb : (b, ctx) ∈ (segment source).1)
    (hl : l ∈ Line.all source) (hc : '\n' ∉ c) (hend : EndsInCode source l)
    (hrequest : b.Holds l → 2 ≤ occurrences separator b.code →
      trimStart l.text ≠ "request".toList) :
    (b.outcomes ctx.bindings).filterMap Outcome.test? =
      (b'.outcomes ctx'.bindings).filterMap Outcome.test? := by
  obtain ⟨hblock, hctx⟩ := h
  dsimp only at hblock hctx
  subst hblock
  by_cases hh : b.Holds l
  · obtain ⟨hregion, hlit⟩ := hend.inBlock b ctx hb hh
    have hline := getElem?_lines_of_holds hb hl hh
    have hk : l.number - b.line < (lines b.text).length := (List.getElem?_eq_some_iff.1 hline).1
    obtain ⟨hpadded, hliterals⟩ := Block.paddedBlock_commentAt hc
      (Block.description_withComment l.number c) (Block.code_withComment hh c) hk hregion hlit
      fun h2 m hm => by
        rw [hline] at hm
        rw [← Option.some.inj hm]
        exact hrequest hh h2
    exact (hpadded.tests_eq hliterals hctx.bindings).symm
  · rw [Block.withComment_of_not_holds hh]
    exact ((PaddedBlock.of_code_eq rfl rfl).tests_eq rfl hctx.bindings).symm

/-- **A comment after a line** leaves the tests as they are, if the line is not blank and its readers
are in code at its end. What the line binds, if it starts a binding, must be no header expression,
and in a block that is cut into parts the line must not be the word `request` alone. -/
theorem tests_commentAt (filename config : Text) {source c : Text} {l : Line}
    (hl : l ∈ Line.all source) (hblank : l.isBlank = false) (hc : '\n' ∉ c)
    (hend : EndsInCode source l)
    (hbind : active (Line.all source) l = true → Line.startsBinding (trimStart l.text) = true →
      l.BindsUnread)
    (hrequest : ∀ b ctx, (b, ctx) ∈ (segment source).1 → b.Holds l →
      2 ≤ occurrences separator b.code → trimStart l.text ≠ "request".toList) :
    (Extraction.ofSource filename (commentAt (l.number - 1) c source) config).tests =
      (Extraction.ofSource filename source config).tests := by
  have hnumber : l.number - 1 + 1 = l.number := by
    obtain ⟨i, -, rfl⟩ := List.mem_mapIdx.1 hl
    rfl
  have htrail := Line.CanTrail.of_endsInCode hl hblank hend hbind
  have hsegment : List.Forall₂ (TrailedBlock l.number c) (segment source).1
      (segment (commentAt (l.number - 1) c source)).1 := by
    have := segment_commentAt (i := l.number - 1) hc (by rwa [hnumber])
    rwa [hnumber] at this
  have hblocks := (List.forall₂_and_left _ _).2 ⟨fun p hp => hp, hsegment⟩
  show (outcomesOf _).filterMap _ = (outcomesOf _).filterMap _
  rw [outcomesOf, outcomesOf, List.filterMap_flatMap, List.filterMap_flatMap, eq_comm,
    ← List.forall₂_eq_eq_eq]
  refine List.rel_flatMap hblocks fun p q hpq => ?_
  rw [List.forall₂_eq_eq_eq]
  exact hpq.2.tests_eq hpq.1 hl hc hend (hrequest p.1 p.2 hpq.1)

/-- A test that reads twice, the second time with the word `request` alone on its line. The first
response has a body on two lines. -/
def requestAlone : Text :=
  unlines ["let limit = 2 * 5".toList, "it \"x\" $ do".toList,
    "  get \"/a\" `shouldRespondWith` [json|[1,".toList, "    2]|]".toList, "  request".toList,
    "    methodGet \"/b\" [] \"\" `shouldRespondWith` 404".toList]

/-- Its line with a binding. -/
def bindingLine : Line := ⟨1, "let limit = 2 * 5".toList⟩

/-- Its line on which the body ends. -/
def bodyLine : Line := ⟨4, "    2]|]".toList⟩

/-- Its line with the word `request`. -/
def requestLine : Line := ⟨5, "  request".toList⟩

-- the line before `bodyLine` ends inside the body
example : ∀ p ∈ (segment requestAlone).1, p.1.InLiteral 1 ∧ ¬p.1.InLiteral 2 := by
  decide +kernel

theorem endsInCode_requestAlone : ∀ l ∈ [bindingLine, bodyLine, requestLine],
    l ∈ Line.all requestAlone ∧ l.isBlank = false ∧ EndsInCode requestAlone l := by
  have h : ∀ l ∈ [bindingLine, bodyLine, requestLine],
      (l ∈ Line.all requestAlone ∧ l.isBlank = false) ∧
      (active (Line.all requestAlone) l = true → (stripFrom .code l.text).2 = .code) ∧
      ∀ p ∈ (segment requestAlone).1, p.1.Holds l →
        regionAfter false ((lines p.1.text).take (l.number - p.1.line + 1)) = .code ∧
          ¬p.1.InLiteral (l.number - p.1.line) := by
    decide +kernel
  intro l hl
  obtain ⟨⟨hmem, hblank⟩, halone, hblock⟩ := h l hl
  exact ⟨hmem, hblank, halone, fun b ctx hb => hblock (b, ctx) hb⟩

/-- The number of its tests, and with a comment after the word `request`. -/
theorem length_tests_requestAlone : (Extraction.ofSource [] requestAlone []).tests.length = 1 ∧
    (Extraction.ofSource [] (commentAt 4 ['c'] requestAlone) []).tests.length = 2 := by
  decide +kernel

theorem bindsUnread_bindingLine : bindingLine.BindsUnread :=
  ⟨"limit".toList, "2 * 5".toList, by decide +kernel, by decide +kernel⟩

theorem tests_commentAt_requestAlone :
    (Extraction.ofSource [] requestAlone []).tests.length = 1 ∧ ∀ l ∈ [bindingLine, bodyLine],
      l ∈ Line.all requestAlone ∧ l.isBlank = false ∧ EndsInCode requestAlone l ∧
      (Extraction.ofSource [] (commentAt (l.number - 1) ['c'] requestAlone) []).tests =
        (Extraction.ofSource [] requestAlone []).tests := by
  refine ⟨length_tests_requestAlone.1, fun l hm => ?_⟩
  have hrequest : ∀ l ∈ [bindingLine, bodyLine], trimStart l.text ≠ "request".toList := by
    decide +kernel
  have hbody : Line.startsBinding (trimStart bodyLine.text) = false := by decide +kernel
  have hbind : Line.startsBinding (trimStart l.text) = true → l.BindsUnread := by
    rcases List.mem_pair.1 hm with rfl | rfl
    · exact fun _ => bindsUnread_bindingLine
    · rw [hbody]
      nofun
  obtain ⟨hl, hblank, hend⟩ := endsInCode_requestAlone l (List.mem_append_left [requestLine] hm)
  exact ⟨hl, hblank, hend, tests_commentAt [] [] hl hblank (by decide) hend (fun _ => hbind)
    fun _ _ _ _ _ => hrequest l hm⟩

/-- **Not every comment is without effect**: one after the word `request` in `requestAlone` makes a
second test of it. -/
theorem not_tests_commentAt : ¬ ∀ (filename config source c : Text) (l : Line),
    l ∈ Line.all source → l.isBlank = false → '\n' ∉ c → EndsInCode source l →
      (Extraction.ofSource filename (commentAt (l.number - 1) c source) config).tests =
        (Extraction.ofSource filename source config).tests := by
  intro h
  obtain ⟨hl, hblank, hend⟩ := endsInCode_requestAlone requestLine (by simp)
  have heq := congrArg List.length (h [] [] requestAlone ['c'] requestLine hl hblank (by decide) hend)
  obtain ⟨hbefore, hafter⟩ := length_tests_requestAlone
  rw [hbefore] at heq
  cases hafter.symm.trans heq

end SpecHarvest
