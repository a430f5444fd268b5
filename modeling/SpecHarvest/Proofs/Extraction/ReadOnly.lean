import SpecHarvest.Proofs.Assertion.Write
import SpecHarvest.Proofs.Extraction.Outcome
import SpecHarvest.Proofs.Http.Method
import SpecHarvest.Proofs.RequestExpr.Search
import SpecHarvest.Proofs.Source.Reader

/-!
# What a split block sends

A block with several assertions is split only if none of its parts writes, as far as `isMutating`
can tell. It knows `post`, `patch` and the constants of `writeMethods` between the word boundaries
of Unicode, while a request expression may name its method in any letter case and has its keyword
between the boundaries of ASCII.

* `Overlooked`: the request expressions in that gap.
* `readOnly_iff_not_overlooked`: in a text that does not write, they are exactly the expressions
  whose method writes. `readOnly_iff_of_yields` says so of the test cases of a split block.
* `not_readOnly_of_split`: there is such a test case.
-/

namespace SpecHarvest

open Text Source Http RequestExpr

/-! ## Words next to letters beyond ASCII -/

/-- A word stands before white space and right after a word character that belongs to no
identifier. -/
def AfterForeign (word s : Text) : Prop :=
  ∃ x d b y, s = x ++ d :: (word ++ b :: y) ∧ isWordChar d = true ∧ isIdentChar d = false ∧
    isBlank b = true

theorem afterForeign_of_collapse {word s x r : Text} {c d : Char}
    (hw : ∀ c ∈ word, isBlank c = false) (hd : isWordChar d = true) (hi : isIdentChar d = false)
    (hc : isBlank c = true) (h : collapse s = x ++ d :: (word ++ c :: r)) :
    AfterForeign word s := by
  have hdb : isBlank d = false := by
    cases hb : isBlank d with
    | false => rfl
    | true => simp [isWordChar_of_isBlank hb] at hd
  obtain ⟨x', y, rfl, hy, -⟩ := exists_of_collapse_eq_append hdb h
  obtain ⟨t, rfl, ht⟩ := exists_of_squeeze_eq_append hw hy
  obtain ⟨b, u, rfl, hb, -⟩ := exists_blank_of_squeeze_eq_cons hc ht
  exact ⟨x', d, b, u, rfl, hd, hi, hb⟩

/-- In a text that does not write, what would write stands right after a letter beyond ASCII. -/
theorem afterForeign_of_not_isMutating {word s front tail : Text} {c : Char}
    (hm : isMutating (collapse s) = false) (hw : ∀ c ∈ word, isBlank c = false)
    (hp : StandsAlone none word (collapse s) front (c :: tail)) (hc : isBlank c = true)
    (hwr : writeHere (word ++ c :: tail) = true) : AfterForeign word s := by
  have hb : boundaryAfter front = false := by
    cases hb : boundaryAfter front with
    | false => rfl
    | true =>
      have heq : collapse s = front ++ (word ++ c :: tail) := by rw [hp.eq, List.append_assoc]
      have := atWordStart_iff.2 ⟨front, _, heq, hb, hwr⟩
      simp [isMutating, this] at hm
  have hst := hp.start
  rw [Option.or_none] at hst
  rw [boundaryAfter] at hb
  cases hl : front.getLast? with
  | none => simp [hl] at hb
  | some d =>
    obtain ⟨x, rfl⟩ := List.getLast?_eq_some_iff.1 hl
    refine afterForeign_of_collapse hw (d := d) ?_ ?_ hc (x := x) (r := tail) ?_
    · simpa [hl] using hb
    · simpa [hl, startsHere] using hst
    · rw [hp.eq]; simp

/-! ## Request expressions that write -/

/-- A general request is written as its keyword, its method and white space around that. -/
theorem exists_of_general_after? {tail m p a : Text}
    (h : Form.general.after? tail = some (.general m p a)) :
    ∃ c r b u, tail = c :: r ∧ isBlank c = true ∧ trimStart r = m ++ b :: u ∧ isBlank b = true := by
  obtain ⟨c, r, rfl, hc⟩ := Form.exists_blank_of_after? h
  simp only [Form.after?, blanks?, hc, if_true, Option.bind_eq_bind, Option.bind_eq_some_iff,
    Option.pure_def, Option.some.injEq, Prod.exists] at h
  obtain ⟨s, rfl, m', v, hi, w, hv, p', x, -, a', -, he⟩ := h
  obtain ⟨rfl, -, -⟩ := RequestExpr.general.inj he
  cases v with
  | nil => simp at hv
  | cons b u =>
    refine ⟨c, r, b, u, rfl, hc, (identifier?_eq_some_iff.1 hi).1, ?_⟩
    cases hb : isBlank b with
    | true => rfl
    | false => simp [hb] at hv

theorem boundaryAfter_of_allBlank {x : Text} (h : ∀ c ∈ x, isBlank c = true) :
    boundaryAfter x = true := by
  unfold boundaryAfter
  cases hl : x.getLast? with
  | none => rfl
  | some d =>
    have hd := h d (List.mem_of_getLast? hl)
    simp [isWordChar_of_isBlank hd]

/-- A helper that writes, after white space, is seen. -/
theorem isMutating_of_word {x r m u : Text} {b c : Char} (hc : isBlank c = true)
    (hr : trimStart r = m ++ b :: u) (hb : isBlank b = true)
    (hm : m = "post".toList ∨ m = "patch".toList) : isMutating (x ++ c :: r) = true := by
  have hsplit : r = r.takeWhile isBlank ++ (m ++ b :: u) := by
    rw [← hr, trimStart, List.takeWhile_append_dropWhile]
  have he : endsHere isWordChar (b :: u) = true := by simp [endsHere, isWordChar_of_isBlank hb]
  refine atWordStart_iff.2 ⟨x ++ c :: r.takeWhile isBlank, m ++ b :: u, ?_, ?_, ?_⟩
  · simp [← hsplit]
  · rw [boundaryAfter_append_cons (isWordChar_of_isBlank hc)]
    exact boundaryAfter_of_allBlank fun c hc => List.all_eq_true.1 List.all_takeWhile c hc
  · rw [writeHere_iff]
    rcases hm with rfl | rfl
    · exact .inl (wordHere_iff.2 ⟨_, rfl, he⟩)
    · exact .inr (.inl (wordHere_iff.2 ⟨_, rfl, he⟩))

/-- **Writing that is overlooked** in a text that does not write: a `post` right after a letter
beyond ASCII, and a general request whose method is spelt in another way than `isMutating` knows, or
whose keyword stands right after such a letter. -/
def Overlooked (s : Text) : RequestExpr → Prop
  | .get _ => False
  | .post _ _ => AfterForeign "post".toList s
  | .general m _ _ =>
    upper m ∈ Method.writeNames ∧ m ≠ "post".toList ∧ m ≠ "patch".toList ∨
      m ∈ writeMethods ∧ AfterForeign "request".toList s

theorem not_readOnly_of_overlooked {s : Text} {e : RequestExpr} {bindings : Bindings} {r : Request}
    (hr : e.resolve? bindings = some r) (h : Overlooked s e) : r.method.readOnly = false := by
  have hm := method?_of_resolve? hr
  cases e with
  | get path => exact h.elim
  | post path body =>
    rw [← Option.some.inj hm]
    rfl
  | general m path arguments =>
    rw [Method.readOnly_eq_false_iff hm]
    rcases h with ⟨h, -⟩ | ⟨h, -⟩
    · exact .inr h
    · exact .inl h

theorem isMutating_collapse_eq_false {s : Text} (h : isMutating s = false) :
    isMutating (collapse s) = false := by
  cases hc : isMutating (collapse s) with
  | false => rfl
  | true => simp [isMutating_of_collapse hc] at h

theorem overlooked_of_not_readOnly {s : Text} {e : RequestExpr} {bindings : Bindings} {r : Request}
    (hm : isMutating s = false) (he : find? (collapse s) = some e)
    (hr : e.resolve? bindings = some r) (hw : r.method.readOnly = false) : Overlooked s e := by
  have hmc := isMutating_collapse_eq_false hm
  have hmeth := method?_of_resolve? hr
  obtain ⟨f, front, hch⟩ := find?_eq_some_iff.1 he
  obtain ⟨tail, hp, ha⟩ := hch.place
  obtain rfl := Form.ofExpr_eq_of_after? ha
  obtain ⟨c, t, rfl, hc⟩ := Form.exists_blank_of_after? ha
  cases e with
  | get path =>
    rw [← Option.some.inj hmeth] at hw
    cases hw
  | post path body =>
    have hword : endsHere isWordChar (c :: t) = true := by
      simp [endsHere, isWordChar_of_isBlank hc]
    refine afterForeign_of_not_isMutating hmc (Form.isBlank_keyword .post) hp hc ?_
    exact writeHere_iff.2 (.inl (wordHere_iff.2 ⟨_, rfl, hword⟩))
  | general m path arguments =>
    obtain ⟨c', t', b, u, htail, -, hu, hb⟩ := exists_of_general_after? ha
    obtain ⟨rfl, rfl⟩ := List.cons.inj htail
    rcases (Method.readOnly_eq_false_iff hmeth).1 hw with hmw | hmw
    · refine .inr ⟨hmw, afterForeign_of_not_isMutating hmc (Form.isBlank_keyword .general) hp hc ?_⟩
      refine writeHere_iff.2 (.inr (.inr (writeRequestHere_iff.2 ⟨c, t, rfl, hc, m, hmw, ?_⟩)))
      exact wordHere_iff.2 ⟨b :: u, hu, by simp [endsHere, isWordChar_of_isBlank hb]⟩
    · have hnot : ¬(m = "post".toList ∨ m = "patch".toList) := by
        intro hm'
        have := isMutating_of_word (x := front ++ "request".toList) hc hu hb hm'
        rw [show front ++ "request".toList ++ c :: t = collapse s from hp.eq.symm, hmc] at this
        cases this
      exact .inl ⟨hmw, fun h => hnot (.inl h), fun h => hnot (.inr h)⟩

/-- **The exact gap**: in a text that does not write, a request is read-only unless its expression
is overlooked. -/
theorem readOnly_iff_not_overlooked {s : Text} {e : RequestExpr} {bindings : Bindings} {r : Request}
    (hm : isMutating s = false) (he : find? (collapse s) = some e)
    (hr : e.resolve? bindings = some r) : r.method.readOnly = true ↔ ¬Overlooked s e := by
  constructor
  · intro h ho
    simp [not_readOnly_of_overlooked hr ho] at h
  · intro h
    cases hw : r.method.readOnly with
    | true => rfl
    | false => exact absurd (overlooked_of_not_readOnly hm he hr hw) h

/-! ## Split blocks -/

theorem isMutating_of_cut? {s front rest : Text} (hm : isMutating s = false)
    (h : cut? separator s = some (front, rest)) : isMutating front = false := by
  have hn : NoMethodAhead ('\x60' :: ("shouldRespondWith\x60".toList ++ rest)) :=
    noMethodAhead_cons (by decide) (by decide) _
  have hs : s = front ++ '\x60' :: ("shouldRespondWith\x60".toList ++ rest) := by
    rw [eq_of_cut? h, List.append_assoc]; rfl
  rw [hs, isMutating_append (by decide) hn, Bool.or_eq_false_iff] at hm
  exact hm.1

/-- **The test cases of a split block are read-only**, those aside whose request expression is
overlooked in the text before the separator of its part. -/
theorem readOnly_iff_of_yields {source : Text} {b : Block} {c : Context} {t : TestCase}
    (h : Yields source b c t) (h2 : 2 ≤ occurrences separator b.code) :
    ∃ part ∈ b.parts, ∃ front rest e, cut? separator part = some (front, rest) ∧
      find? (collapse front) = some e ∧ e.resolve? c.bindings = some t.request ∧
      (t.request.method.readOnly = true ↔ ¬Overlooked front e) := by
  obtain ⟨hr, part, hp, ha⟩ := h.exists_part
  obtain ⟨front, rest, hc, hreq, -⟩ := parseAssertion?_eq_some_iff.1 ha
  obtain ⟨e, he, hres⟩ := Option.bind_eq_some_iff.1 hreq
  have hm := isMutating_of_cut? (Block.isMutating_of_accepted hr h2 part hp) hc
  exact ⟨part, hp, front, rest, e, hc, he, hres, readOnly_iff_not_overlooked hm he hres⟩

/-- A test that sends a general request with the helper name of a method that writes. -/
def putThenGet : Text :=
  "it \"x\" $ do\n  request put \"/a\" [] \"\" `shouldRespondWith` 204\n".toList ++
    "  get \"/b\" `shouldRespondWith` 200".toList

def putThenGetBlock : Block := ⟨["x".toList], putThenGet, 1⟩

theorem exists_yields_putThenGet :
    (∃ t, Yields putThenGet putThenGetBlock .empty t ∧ t.request.method = .put) ∧
      2 ≤ occurrences separator putThenGetBlock.code := by
  have htext : putThenGet = _ ++ _ :=
    congrArg₂ (· ++ ·) String.toList_ofList String.toList_ofList
  obtain ⟨hb, hr, h2⟩ : (putThenGetBlock, .empty) ∈ (segment putThenGet).1 ∧
      ⟨.put, "/a".toList, [], none⟩ ∈ putThenGetBlock.requests [] ∧
      2 ≤ occurrences separator putThenGetBlock.code := by
    rw [putThenGetBlock, htext]
    decide +kernel
  obtain ⟨t, ht, he⟩ := exists_yields_of_mem_requests hb hr
  exact ⟨⟨t, ht, by rw [he]⟩, h2⟩

theorem readOnly_iff_of_yields_putThenGet :
    ∃ t, Yields putThenGet putThenGetBlock .empty t ∧
      2 ≤ occurrences separator putThenGetBlock.code ∧ t.request.method.readOnly = false ∧
      ∃ part ∈ putThenGetBlock.parts, ∃ front rest e, cut? separator part = some (front, rest) ∧
        find? (collapse front) = some e ∧ Overlooked front e := by
  obtain ⟨⟨t, h, hput⟩, h2⟩ := exists_yields_putThenGet
  have hw : t.request.method.readOnly = false := by rw [hput]; rfl
  obtain ⟨part, hp, front, rest, e, hc, he, -, hiff⟩ := readOnly_iff_of_yields h h2
  refine ⟨t, h, h2, hw, part, hp, front, rest, e, hc, he, Classical.byContradiction fun hn => ?_⟩
  rw [hiff.2 hn] at hw
  cases hw

/-- **Not every test case of a split block is read-only.** -/
theorem not_readOnly_of_split : ¬ ∀ (source : Text) (b : Block) (c : Context) (t : TestCase),
    Yields source b c t → 2 ≤ occurrences separator b.code → t.request.method.readOnly = true := by
  intro h
  obtain ⟨⟨t, ht, hput⟩, h2⟩ := exists_yields_putThenGet
  have := h putThenGet putThenGetBlock .empty t ht h2
  rw [hput] at this
  cases this

end SpecHarvest
