import SpecHarvest.Proofs.Extraction.Outcome
import SpecHarvest.Proofs.RequestExpr.Search

/-!
# Blocks with one assertion

The text before the only separator of a block is read as a whole. Its request expression is the
leftmost of the first form that it holds, wherever the lines start, and writing is not looked for.

* `outcomes_of_one_separator`: the one outcome of such a block, when it is a test case, and which
  request that sends.
* `not_request_of_last_line`: it need not be the request of the last line that makes one.
-/

namespace SpecHarvest

open Text Source RequestExpr

/-- An expression that is chosen in a text and stands in its last lines is the one of these. -/
theorem find?_collapse_of_chosen {pre last before : Text} {f : Form} {e : RequestExpr}
    (hpre : pre = [] ∨ EndsLine pre) (hlast : trimStart last ≠ [])
    (h : Chosen (collapse (pre ++ last)) f before e)
    (hle : (collapse pre).length ≤ before.length) : find? (collapse last) = some e := by
  rcases hpre with rfl | hpre
  · exact find?_eq_some_iff.2 ⟨f, before, h⟩
  have hb : isBlank '\n' = true := by decide
  obtain ⟨x, rfl⟩ := List.getLast?_eq_some_iff.1 hpre
  rw [collapse_append_singleton hb] at hle
  rw [List.append_assoc, List.singleton_append] at h
  rcases collapse_append_blank hb hlast x with heq | heq
  · exact find?_eq_some_iff.2 ⟨f, before, heq ▸ h⟩
  · obtain ⟨before', h'⟩ := (heq ▸ h).of_append (by decide) hle
    exact find?_eq_some_iff.2 ⟨f, before', h'⟩

namespace Block

variable {b : Block} {bindings : Bindings}

theorem parts_of_one (h : occurrences separator b.code = 1) : b.parts = [b.code] :=
  if_pos (by omega)

theorem outcomes_of_one (h : occurrences separator b.code = 1) (hr : b.refusal? = none)
    (bindings : Bindings) :
    b.outcomes bindings = [b.outcomeOf bindings b.description .unreadable b.text b.code] := by
  rw [outcomes_of_accepted hr, parts_of_one h]
  simp [outcomeAt, h]

theorem outcomes_of_test {t : TestCase} (h : occurrences separator b.code = 1)
    (ht : .test t ∈ b.outcomes bindings) :
    b.outcomes bindings = [.test t] ∧ t.description = b.description := by
  obtain ⟨i, hi⟩ := List.mem_iff_getElem?.1 ht
  have hout := outcomes_of_one h (exists_part_of_test hi).1 bindings
  rw [hout, List.mem_singleton] at ht
  rw [hout, ← ht]
  refine ⟨rfl, ?_⟩
  unfold outcomeOf at ht
  split at ht
  · exact congrArg TestCase.description (Outcome.test.inj ht)
  · cases ht

theorem outcomes_of_no_test (h : occurrences separator b.code = 1)
    (hn : ∀ t, .test t ∉ b.outcomes bindings) :
    ∃ reason, b.outcomes bindings = [b.flagWhole reason] := by
  cases hr : b.refusal? with
  | some r => exact ⟨r, outcomes_of_refusal hr⟩
  | none =>
    have hout := outcomes_of_one h hr bindings
    refine ⟨.unreadable, ?_⟩
    rw [hout] at hn ⊢
    unfold outcomeOf at hn ⊢
    split
    · rename_i r e ha
      simp [ha] at hn
    · rfl

end Block

/-- **The outcome of a block with one separator.** A test case comes from it exactly if the block is
not refused for its description or for a construct, the text before the separator states a request
and the text after it an expectation; it is then the only outcome. Its request is that of the
expression chosen in the whole text before the separator, so that it is read from a line on that
makes a request if the expression stands there. Otherwise the whole block is flagged. -/
theorem outcomes_of_one_separator {source : Text} {b : Block} {c : Context}
    (hb : (b, c) ∈ (segment source).1) (h1 : occurrences separator b.code = 1) :
    ∃ front rest, cut? separator b.code = some (front, rest) ∧
      ((∃ t, Yields source b c t) ↔ b.description.any List.isEmpty = false ∧
        Construct.first? b.code = none ∧ (Request.parse? c.bindings front).isSome = true ∧
        (Expected.parse? rest).isSome = true) ∧
      (∀ t, Yields source b c t → b.outcomes c.bindings = [.test t] ∧
        t.description = b.description ∧ Expected.parse? rest = some t.expected ∧
        ∃ f before e, Chosen (collapse front) f before e ∧
          e.resolve? c.bindings = some t.request ∧
          ∀ pre last, front = pre ++ last → (pre = [] ∨ EndsLine pre) →
            startsRequest last = true → (collapse pre).length ≤ before.length →
            Request.parse? c.bindings last = some t.request) ∧
      ((∀ t, ¬ Yields source b c t) → ∃ reason, b.outcomes c.bindings = [b.flagWhole reason]) := by
  obtain ⟨⟨front, rest⟩, hcut⟩ : ∃ p, cut? separator b.code = some p := by
    refine Option.ne_none_iff_exists'.1 fun hn => ?_
    have := (cut?_eq_none_iff (by decide)).1 hn
    omega
  refine ⟨front, rest, hcut, ?_, fun t ht => ?_, fun hn => ?_⟩
  · rw [exists_yields_iff hb, Block.refusal?_eq_none_iff, Block.parts_of_one h1, h1]
    simp [and_assoc, isSome_parseAssertion?_of_cut? hcut]
  · obtain ⟨-, part, hp, ha⟩ := ht.exists_part
    rw [Block.parts_of_one h1, List.mem_singleton] at hp
    subst hp
    obtain ⟨hreq, hexp⟩ := (parseAssertion?_of_cut? hcut).1 ha
    obtain ⟨e, he, hres⟩ := Option.bind_eq_some_iff.1 hreq
    obtain ⟨f, before, hch⟩ := find?_eq_some_iff.1 he
    obtain ⟨hout, hdesc⟩ := Block.outcomes_of_test h1 ht.test
    refine ⟨hout, hdesc, hexp, f, before, e, hch, hres, ?_⟩
    rintro pre last rfl hpre hlast hle
    have hfind := find?_collapse_of_chosen hpre (trimStart_ne_nil_of_startsRequest hlast) hch hle
    exact Option.bind_eq_some_iff.2 ⟨e, hfind, hres⟩
  · exact Block.outcomes_of_no_test h1 fun t ht => hn t ⟨hb, ht⟩

/-- A test that makes two requests before its assertion. -/
def getThenPost : Text :=
  "it \"x\" $ do\n  get \"/a\"\n  post \"/b\" \"\" `shouldRespondWith` 200".toList

def getThenPostBlock : Block := ⟨["x".toList], getThenPost, 1⟩

theorem exists_yields_getThenPost :
    (∃ t, Yields getThenPost getThenPostBlock .empty t ∧ t.request.method = .get) ∧
      occurrences separator getThenPostBlock.code = 1 := by
  have htext : getThenPost = _ := String.toList_ofList
  obtain ⟨hb, hr, h1⟩ : (getThenPostBlock, .empty) ∈ (segment getThenPost).1 ∧
      ⟨.get, "/a".toList, [], none⟩ ∈ getThenPostBlock.requests [] ∧
      occurrences separator getThenPostBlock.code = 1 := by
    rw [getThenPostBlock, htext]
    decide +kernel
  obtain ⟨t, ht, he⟩ := exists_yields_of_mem_requests hb hr
  exact ⟨⟨t, ht, by rw [he]⟩, h1⟩

theorem outcomes_of_one_separator_getThenPost : ∃ t,
    Yields getThenPost getThenPostBlock .empty t ∧ getThenPostBlock.outcomes [] = [.test t] := by
  obtain ⟨⟨t, ht, -⟩, h1⟩ := exists_yields_getThenPost
  obtain ⟨front, rest, -, -, hout, -⟩ := outcomes_of_one_separator ht.leaf h1
  exact ⟨t, ht, (hout t ht).1⟩

/-- **The request of a test case need not be that of the last line** before its separator that makes
one. -/
theorem not_request_of_last_line : ¬ ∀ (source : Text) (b : Block) (c : Context) (t : TestCase)
    (front rest : Text), Yields source b c t → occurrences separator b.code = 1 →
      cut? separator b.code = some (front, rest) → 2 ≤ requestLines front →
      ∃ last, (assertionSpans front).getLast? = some last ∧
        Request.parse? c.bindings last = some t.request ∧
        ∀ span ∈ (assertionSpans front).dropLast, isMutating span = false := by
  intro h
  obtain ⟨⟨t, ht, hget⟩, h1⟩ := exists_yields_getThenPost
  let front : Text := "it \"x\" $ do\n  get \"/a\"\n  post \"/b\" \"\" ".toList
  have htext : getThenPost = _ := String.toList_ofList
  obtain ⟨hcut, h2, hlast, hpost⟩ :
      cut? separator getThenPostBlock.code = some (front, " 200".toList) ∧
      2 ≤ requestLines front ∧
      (assertionSpans front).getLast? = some "  post \"/b\" \"\" ".toList ∧
      (Request.parse? [] "  post \"/b\" \"\" ".toList).map (·.method) = some .post := by
    rw [getThenPostBlock, htext]
    decide +kernel
  obtain ⟨last, hl, hreq, -⟩ := h _ _ _ t front _ ht h1 hcut h2
  obtain rfl := Option.some.inj (hlast.symm.trans hl)
  rw [show (Context.empty).bindings = [] from rfl] at hreq
  rw [hreq, Option.map_some, hget] at hpost
  cases hpost

end SpecHarvest
