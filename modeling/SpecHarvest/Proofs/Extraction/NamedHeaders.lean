import SpecHarvest.Proofs.Block.Binding
import SpecHarvest.Proofs.Extraction.OneAssertion
import SpecHarvest.Proofs.HeaderExpr.Chain

/-!
# Requests whose headers have a name

A request may name its headers. The name is looked up in the table of the block, which only knows
what is bound before the block and outside of all blocks; a `let` among the lines of the block, in
front of the request, does not count.

* `headers_of_general`: the headers of a general request.
* `LetBefore s x e`: in a text a line binds a name, and a later line starts a request.
* `headers_of_named`: the headers of a request that names them.
-/

namespace SpecHarvest

open Text Source Http

/-- A line of a text binds a name, and a later line starts a request. -/
def LetBefore (s x e : Text) : Prop :=
  ∃ front l between request back, lines s = front ++ l :: (between ++ request :: back) ∧
    Line.kindOf (trimStart l) = .binding x e ∧ startsRequest request = true

/-- The headers of a general request, which is the only one that a block makes. -/
theorem headers_of_general {source : Text} {b : Block} {c : Context} {t : TestCase}
    {front rest m p args h body : Text} (ht : Yields source b c t)
    (h1 : occurrences separator b.code = 1) (hc : cut? separator b.code = some (front, rest))
    (hf : RequestExpr.find? (collapse front) = some (.general m p args))
    (hs : RequestExpr.splitArguments? args = some (h, body)) :
    t.request.headers = (HeaderExpr.resolveList? c.bindings h).getD [] := by
  obtain ⟨-, part, hp, ha⟩ := ht.exists_part
  rw [Block.parts_of_one h1, List.mem_singleton] at hp
  subst hp
  obtain ⟨hreq, -⟩ := (parseAssertion?_of_cut? hc).1 ha
  rw [Request.parse?, hf, Option.bind_some] at hreq
  simp only [RequestExpr.resolve?, hs, Option.bind_eq_bind, Option.bind_eq_some_iff,
    Option.some.injEq, exists_eq_left', Option.pure_def] at hreq
  obtain ⟨method, -, b', -, hreq⟩ := hreq
  rw [← hreq]

open HeaderExpr in
/-- **The headers of a request that names them.** They are what the name is bound to by the last
`let` that stands before the block and outside of all blocks, under the bindings that are made so;
there are none if there is no such `let` or it binds the name to what is not understood. What the
block binds itself does not matter. The plan helper is no name. -/
theorem headers_of_named {source : Text} {b : Block} {c : Context} {t : TestCase}
    {front rest m p args h body : Text} (ht : Yields source b c t)
    (h1 : occurrences separator b.code = 1) (hc : cut? separator b.code = some (front, rest))
    (hf : RequestExpr.find? (collapse front) = some (.general m p args))
    (hs : RequestExpr.splitArguments? args = some (h, body)) :
    (∀ y e, Assoc.get? y c.bindings = some e ↔ BoundBefore source b.line y e) ∧
    (IsName (trim h) →
      (∀ e, BoundBefore source b.line (trim h) e →
        t.request.headers = (resolve? c.bindings e).getD []) ∧
      ((∀ e, ¬BoundBefore source b.line (trim h) e) → t.request.headers = [])) ∧
    (trim h = "planHdr".toList →
      t.request.headers = [Header.of "Accept" "application/vnd.pgrst.plan+json"]) := by
  have hget : ∀ y e, Assoc.get? y c.bindings = some e ↔ BoundBefore source b.line y e :=
    fun y e => get?_bindings_iff ht.leaf
  have hheaders := headers_of_general ht h1 hc hf hs
  refine ⟨hget, fun hx => ?_, fun hplan => ?_⟩
  · have hparse := parse?_of_isName hx
    rw [resolveList?_of_ident hx.all_isIdentChar] at hheaders
    refine ⟨fun e he => ?_, fun hnone => ?_⟩
    · rw [hheaders, resolve?_of_get? hparse ((hget _ e).2 he)]
    · have hunbound : Assoc.get? (trim h) c.bindings = none :=
        Option.eq_none_iff_forall_ne_some.2 fun e he => hnone e ((hget _ e).1 he)
      rw [hheaders, resolve?_of_binding hparse, hunbound]
      rfl
  · have hident : (trim h).all isIdentChar = true := by
      rw [hplan]
      decide
    have hparse : parse? "planHdr".toList = some .plan := by decide
    rw [hheaders, resolveList?_of_ident hident, hplan, resolve?_of_headers hparse rfl]
    rfl

/-- A test that binds a name and uses it, up to the separator. -/
def boundAgainFront : Text :=
  "it \"x\" $ do\n  let h = planHdr\n  request methodGet \"/a\" h \"\" ".toList

def boundAgainBlock : Block :=
  ⟨["x".toList], boundAgainFront ++ "`shouldRespondWith` 200".toList, 2⟩

/-- The test after another `let` of the name. -/
def boundAgain : Text := "let h = acceptHdrs \"text/csv\"\n".toList ++ boundAgainBlock.text

def boundAgainContext : Context := ⟨[], [("h".toList, "acceptHdrs \"text/csv\"".toList)]⟩

theorem exists_yields_boundAgain : ∃ t, Yields boundAgain boundAgainBlock boundAgainContext t ∧
    t.request.headers = [Header.of "Accept" "text/csv"] := by
  obtain ⟨hb, hr⟩ : (boundAgainBlock, boundAgainContext) ∈ (segment boundAgain).1 ∧
      ⟨.get, "/a".toList, [Header.of "Accept" "text/csv"], none⟩ ∈
        boundAgainBlock.requests boundAgainContext.bindings := by decide +kernel
  obtain ⟨t, ht, he⟩ := exists_yields_of_mem_requests hb hr
  exact ⟨t, ht, by rw [he]⟩

theorem boundAgain_request : occurrences separator boundAgainBlock.code = 1 ∧
    cut? separator boundAgainBlock.code = some (boundAgainFront, " 200".toList) ∧
    RequestExpr.find? (collapse boundAgainFront) =
      some (.general "methodGet".toList "/a".toList "h \"\"".toList) ∧
    RequestExpr.splitArguments? "h \"\"".toList = some ("h".toList, "\"\"".toList) := by
  decide +kernel

theorem headers_of_named_boundAgain : ∃ t,
    Yields boundAgain boundAgainBlock boundAgainContext t ∧
      t.request.headers = [Header.of "Accept" "text/csv"] := by
  obtain ⟨t, ht, -⟩ := exists_yields_boundAgain
  obtain ⟨h1, hc, hf, hs⟩ := boundAgain_request
  obtain ⟨hget, hname, -⟩ := headers_of_named ht h1 hc hf hs
  have hbound : BoundBefore boundAgain 2 "h".toList "acceptHdrs \"text/csv\"".toList :=
    (hget _ _).1 (by decide)
  exact ⟨t, ht, ((hname (by decide)).1 _ hbound).trans (by decide +kernel)⟩

/-- **A `let` of a block does not hide one that stands before the block.** -/
theorem not_hidden_by_let : ¬∀ (source : Text) (b : Block) (c : Context) (t : TestCase)
    (front rest m p args h body e₁ e₂ : Text), Yields source b c t →
      occurrences separator b.code = 1 → cut? separator b.code = some (front, rest) →
      RequestExpr.find? (collapse front) = some (.general m p args) →
      RequestExpr.splitArguments? args = some (h, body) → HeaderExpr.IsName (trim h) →
      (∃ l ∈ Line.all source, l.number < b.line ∧ active (Line.all source) l = true ∧
        l.kind = .binding (trim h) e₁) →
      LetBefore front (trim h) e₂ →
      some t.request.headers = HeaderExpr.resolve? c.bindings e₁ →
      HeaderExpr.resolve? c.bindings e₁ = HeaderExpr.resolve? c.bindings e₂ := by
  intro hidden
  obtain ⟨t, ht, hheaders⟩ := exists_yields_boundAgain
  obtain ⟨h1, hc, hf, hs⟩ := boundAgain_request
  have hinner : LetBefore boundAgainFront "h".toList "planHdr".toList :=
    ⟨["it \"x\" $ do".toList], "  let h = planHdr".toList, [],
      "  request methodGet \"/a\" h \"\" ".toList, [], by decide +kernel⟩
  have houter : ∃ l ∈ Line.all boundAgain, l.number < 2 ∧ active (Line.all boundAgain) l = true ∧
      l.kind = .binding "h".toList "acceptHdrs \"text/csv\"".toList := by
    refine ⟨⟨1, "let h = acceptHdrs \"text/csv\"".toList⟩, ?_⟩
    decide +kernel
  have hsame := hidden _ _ _ t _ _ _ _ _ _ _ _ _ ht h1 hc hf hs (by decide) houter hinner
    (by rw [hheaders]; decide +kernel)
  exact absurd hsame (by decide +kernel)

end SpecHarvest
