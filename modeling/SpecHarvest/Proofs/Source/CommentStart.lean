import SpecHarvest.Proofs.Source.Trailing

/-!
# Where comments start

A line is cut at its first `--` in code.

* `Leads r x r'`: a place lies in the region `r'`, told by the text `x` before it, which starts in
  the region `r` and is read as if it had no comment. Literals and quasi-literals are passed over as
  wholes.
* `regionAt`: the same character by character (`leads_iff`).
* `WithoutComment`: what a line is without its comment, told by the places of its hyphens.
* `stripFrom_spec`: what `stripFrom` leaves is that. It follows that a second time changes nothing
  (`stripFrom_kept`).
* `stripComments_lines`: a text line by line.
-/

namespace SpecHarvest.Source

open Text

/-- The region of a place after a text, which starts in a region and has no comment. A literal is
closed or goes on to the place, and so is a quasi-literal. -/
inductive Leads : Region → Text → Region → Prop
  | here : Leads .code [] .code
  | char {c : Char} {s : Text} {r : Region} : c ≠ '"' → ¬quasiOpen <+: c :: s → Leads .code s r →
      Leads .code (c :: s) r
  | literal {raw s : Text} {r : Region} : Raw raw → Leads .code s r →
      Leads .code ('"' :: (raw ++ '"' :: s)) r
  | inLiteral {s : Text} : closeQuote? s = none → Leads .code ('"' :: s) .literal
  | quasi {s : Text} {r : Region} : Leads .quasi s r → Leads .code (quasiOpen ++ s) r
  | closed {s inner rest : Text} {r : Region} : cut? quasiClose s = some (inner, rest) →
      Leads .code rest r → Leads .quasi s r
  | inQuasi {s : Text} : cut? quasiClose s = none → Leads .quasi s .quasi

/-- The region in which a line starts. -/
def Region.ofLine (inQuasi : Bool) : Region := if inQuasi then .quasi else .code

/-- What a line is without its comment, given whether a quasi-literal is open where it starts. -/
inductive WithoutComment (inQuasi : Bool) (line : Text) : Text → Prop
  | whole : (∀ x, x ++ "--".toList <+: line → ¬Leads (.ofLine inQuasi) x .code) →
      WithoutComment inQuasi line line
  | cut {kept comment : Text} : line = kept ++ "--".toList ++ comment →
      Leads (.ofLine inQuasi) kept .code →
      (∀ x, x ++ "--".toList <+: line → Leads (.ofLine inQuasi) x .code →
        kept.length ≤ x.length) →
      WithoutComment inQuasi line kept

/-- The region of a place after a text, character by character. -/
def regionAt : Region → Text → Region
  | r, [] => r
  | .quasi, '|' :: ']' :: s => regionAt .code s
  | .quasi, _ :: s => regionAt .quasi s
  | .literal, '\\' :: _ :: s => regionAt .literal s
  | .literal, c :: s => regionAt (if c = '"' then .code else .literal) s
  | .code, '[' :: 'j' :: 's' :: 'o' :: 'n' :: '|' :: s => regionAt .quasi s
  | .code, c :: s => regionAt (if c = '"' then .literal else .code) s

/-! ## Literals and quasi-literals as wholes -/

theorem regionAt_literal (s : Text) : regionAt .literal s = match closeQuote? s with
    | some (_, rest) => regionAt .code rest
    | none => .literal := by
  fun_induction closeQuote? s with
  | case1 => rfl
  | case2 c s ih =>
    rw [regionAt, ih]
    cases closeQuote? s <;> rfl
  | case3 s hb =>
    rw [regionAt]
    · rfl
    · exact hb
  | case4 c s hb hc ih =>
    rw [regionAt, if_neg hc, ih]
    · cases closeQuote? s <;> rfl
    · exact hb

theorem regionAt_quasi (s : Text) : regionAt .quasi s = match cut? quasiClose s with
    | some (_, rest) => regionAt .code rest
    | none => .quasi := by
  fun_induction cut? quasiClose s with
  | case1 h => cases h
  | case2 => rfl
  | case3 c s rest h =>
    obtain ⟨rfl, rfl⟩ := List.cons.inj (after?_eq_some_iff.1 h)
    rfl
  | case4 c s h ih =>
    have hne : ∀ t, c = '|' → s = ']' :: t → False := by
      rintro t rfl rfl
      cases h
    rw [regionAt, ih]
    · cases cut? quasiClose s <;> rfl
    · exact hne

theorem regionAt_code_cons {c : Char} {s : Text} (h : ¬quasiOpen <+: c :: s) :
    regionAt .code (c :: s) = regionAt (if c = '"' then .literal else .code) s := by
  rw [regionAt]
  rintro t rfl rfl
  exact h ⟨t, rfl⟩

theorem Leads.regionAt {r r' : Region} {x : Text} (h : Leads r x r') : regionAt r x = r' := by
  induction h with
  | here => rfl
  | char hq ho _ ih => rw [regionAt_code_cons ho, if_neg hq, ih]
  | @literal raw s r hraw _ ih =>
    have hquote : Source.regionAt .code ('"' :: (raw ++ '"' :: s)) =
        Source.regionAt .literal (raw ++ '"' :: s) := rfl
    rw [hquote, regionAt_literal, hraw.closeQuote?]
    exact ih
  | @inLiteral s h =>
    have hquote : Source.regionAt .code ('"' :: s) = Source.regionAt .literal s := rfl
    rw [hquote, regionAt_literal, h]
  | quasi _ ih => exact ih
  | closed h _ ih =>
    rw [regionAt_quasi, h]
    exact ih
  | inQuasi h => rw [regionAt_quasi, h]

theorem leads_regionAt_of_code (x : Text) : Leads .code x (regionAt .code x) := by
  induction hn : x.length using Nat.strongRecOn generalizing x with
  | _ n ih =>
  subst hn
  cases x with
  | nil => exact .here
  | cons c s =>
    by_cases hopen : quasiOpen <+: c :: s
    · obtain ⟨s, hs⟩ := hopen
      rw [← hs]
      have hquasi : regionAt .code (quasiOpen ++ s) = regionAt .quasi s := rfl
      rw [hquasi, regionAt_quasi]
      refine .quasi ?_
      cases hcut : cut? quasiClose s with
      | none => exact .inQuasi hcut
      | some p =>
        refine .closed hcut (ih _ ?_ p.2 rfl)
        have hlen := congrArg List.length (eq_of_cut? hcut)
        have hopen := congrArg List.length hs
        simp only [List.length_append] at hlen hopen
        have : quasiOpen.length = 6 := rfl
        omega
    by_cases hq : c = '"'
    · subst hq
      have hquote : regionAt .code ('"' :: s) = regionAt .literal s := rfl
      rw [hquote, regionAt_literal]
      cases hclose : closeQuote? s with
      | none => exact .inLiteral hclose
      | some p =>
        obtain ⟨raw, rest⟩ := p
        obtain ⟨hraw, rfl⟩ := closeQuote?_eq_some_iff.1 hclose
        exact .literal hraw (ih _ (by simp; omega) rest rfl)
    · rw [regionAt_code_cons hopen, if_neg hq]
      exact .char hq hopen (ih _ (by simp) s rfl)

/-- **Literals and quasi-literals can be passed over as wholes**, in a text that starts outside
literals. -/
theorem leads_iff (q : Bool) {x : Text} {r : Region} :
    Leads (.ofLine q) x r ↔ regionAt (.ofLine q) x = r := by
  refine ⟨Leads.regionAt, ?_⟩
  rintro rfl
  cases q with
  | false => exact leads_regionAt_of_code x
  | true =>
    have hquasi : regionAt .quasi x = _ := regionAt_quasi x
    rw [Region.ofLine, if_pos rfl, hquasi]
    cases hcut : cut? quasiClose x with
    | none => exact .inQuasi hcut
    | some p => exact .closed hcut (leads_regionAt_of_code p.2)

/-! ## What is left of a line -/

/-- What `stripFrom` passes over in one step, `x`, and the region behind it. No comment starts
within `x`. -/
structure Passes (r : Region) (s : Text) (r' : Region) (x t : Text) : Prop where
  text : s = x ++ t
  ne_nil : x ≠ []
  strip : stripFrom r s = (x ++ (stripFrom r' t).1, (stripFrom r' t).2)
  region : ∀ k, k <+: t → regionAt r (x ++ k) = regionAt r' k
  before : ∀ y, y ++ "--".toList <+: s → regionAt r y = .code → x <+: y

theorem exists_eq_cons_of_prefix {k s t : Text} {c : Char} (hk : k <+: s) (h : k = c :: t) :
    ∃ u, s = c :: u := by
  obtain ⟨u, rfl⟩ := hk
  exact ⟨t ++ u, by rw [h]; rfl⟩

theorem singleton_prefix {c : Char} {s y : Text} (hne : y ≠ []) (h : y ++ "--".toList <+: c :: s) :
    [c] <+: y := by
  obtain ⟨d, y, rfl⟩ := List.exists_cons_of_ne_nil hne
  obtain ⟨rfl, -⟩ := List.cons_prefix_cons.1 h
  exact ⟨y, rfl⟩

theorem pair_prefix {c d : Char} {s y : Text} (hne : y ≠ []) (hc : y ≠ [c])
    (h : y ++ "--".toList <+: c :: d :: s) : [c, d] <+: y := by
  obtain ⟨y, rfl⟩ := singleton_prefix hne h
  have hy : y ≠ [] := by
    rintro rfl
    exact hc rfl
  exact List.cons_prefix_cons.2 ⟨rfl, singleton_prefix hy (List.cons_prefix_cons.1 h).2⟩

theorem ne_nil_of_regionAt {r : Region} {y : Text} (hr : r ≠ .code) (h : regionAt r y = .code) :
    y ≠ [] := by
  rintro rfl
  cases r <;> first | exact hr rfl | cases h

theorem passes_quasiClose (s : Text) : Passes .quasi ('|' :: ']' :: s) .code ['|', ']'] s where
  text := rfl
  ne_nil := List.cons_ne_nil _ _
  strip := rfl
  region _ _ := rfl
  before y hy hc := by
    refine pair_prefix (ne_nil_of_regionAt (by decide) hc) ?_ hy
    rintro rfl
    cases hc

theorem passes_quasi {c : Char} {s : Text} (h : ∀ t, c = '|' → s = ']' :: t → False) :
    Passes .quasi (c :: s) .quasi [c] s where
  text := rfl
  ne_nil := List.cons_ne_nil _ _
  strip := stripFrom_quasi_cons h
  region k hk := by
    rw [List.singleton_append, regionAt]
    intro t hc hkt
    obtain ⟨u, hu⟩ := exists_eq_cons_of_prefix hk hkt
    exact h u hc hu
  before y hy hc := singleton_prefix (ne_nil_of_regionAt (by decide) hc) hy

theorem passes_escaped (c : Char) (s : Text) :
    Passes .literal ('\\' :: c :: s) .literal ['\\', c] s where
  text := rfl
  ne_nil := List.cons_ne_nil _ _
  strip := rfl
  region _ _ := rfl
  before y hy hc := by
    refine pair_prefix (ne_nil_of_regionAt (by decide) hc) ?_ hy
    rintro rfl
    cases hc

theorem passes_literal {c : Char} {s : Text} (h : ∀ d t, c = '\\' → s = d :: t → False) :
    Passes .literal (c :: s) (if c = '"' then .code else .literal) [c] s where
  text := rfl
  ne_nil := List.cons_ne_nil _ _
  strip := stripFrom_literal_cons h
  region k hk := by
    rw [List.singleton_append, regionAt]
    intro d t hc hkt
    obtain ⟨u, hu⟩ := exists_eq_cons_of_prefix hk hkt
    exact h d u hc hu
  before y hy hc := singleton_prefix (ne_nil_of_regionAt (by decide) hc) hy

theorem passes_quasiOpen (s : Text) : Passes .code (quasiOpen ++ s) .quasi quasiOpen s where
  text := rfl
  ne_nil := List.cons_ne_nil _ _
  strip := rfl
  region _ _ := rfl
  before y hy _ := by
    obtain ⟨t, ht⟩ := hy
    rw [List.append_assoc] at ht
    rcases List.append_eq_append_iff.1 ht with ⟨z, hz, hrest⟩ | ⟨z, hz, -⟩
    · -- else the hyphens would start within the mark
      cases z with
      | nil => exact ⟨[], by rw [hz, List.append_nil, List.append_nil]⟩
      | cons d z =>
        have hd : '-' = d := (List.cons.inj (show '-' :: '-' :: t = d :: (z ++ s) from hrest)).1
        have hmem : '-' ∈ quasiOpen := by
          rw [hz, hd]
          exact List.mem_append_right y List.mem_cons_self
        exact absurd hmem (by decide)
    · exact ⟨z, hz.symm⟩

theorem passes_code {c : Char} {s : Text} (h : ¬OpensHere (c :: s)) :
    Passes .code (c :: s) (if c = '"' then .literal else .code) [c] s where
  text := rfl
  ne_nil := List.cons_ne_nil _ _
  strip := stripFrom_code_cons_of_not_opens h
  region k hk := by
    refine regionAt_code_cons fun ho => h (.inr (startsWith_iff.2 ?_))
    obtain ⟨t, ht⟩ := ho.trans (List.cons_prefix_cons.2 ⟨rfl, hk⟩)
    exact ⟨t, ht.symm⟩
  before y hy _ := by
    refine singleton_prefix ?_ hy
    rintro rfl
    obtain ⟨t, ht⟩ := hy
    exact h (.inl (startsWith_iff.2 ⟨t, ht.symm⟩))

/-- **What one step does.** -/
theorem stripFrom_step (r : Region) (s : Text) : s = [] ∨ (r = .code ∧ "--".toList <+: s) ∨
    ∃ r' x t, Passes r s r' x t := by
  fun_cases stripFrom r s with
  | case1 => exact .inl rfl
  | case2 s => exact .inr (.inr ⟨_, _, _, passes_quasiClose s⟩)
  | case3 c s h => exact .inr (.inr ⟨_, _, _, passes_quasi h⟩)
  | case4 c s => exact .inr (.inr ⟨_, _, _, passes_escaped c s⟩)
  | case5 c s h => exact .inr (.inr ⟨_, _, _, passes_literal h⟩)
  | case6 s => exact .inr (.inl ⟨rfl, s, rfl⟩)
  | case7 s => exact .inr (.inr ⟨_, _, _, passes_quasiOpen s⟩)
  | case8 c s hm hq =>
    exact .inr (.inr ⟨_, _, _, passes_code (not_opensHere hm hq)⟩)

/-- What is left of a text that is read from a region on, and the region behind it. -/
structure Stripped (r : Region) (s kept : Text) (r' : Region) : Prop where
  region : r' = regionAt r kept
  whole_or_cut : kept = s ∨ kept ++ "--".toList <+: s ∧ regionAt r kept = .code
  first : ∀ y, y ++ "--".toList <+: s → regionAt r y = .code → kept <+: y

/-- **A text is cut at its first comment**, if there is one. -/
theorem stripFrom_spec (r : Region) (s : Text) :
    Stripped r s (stripFrom r s).1 (stripFrom r s).2 := by
  induction hn : s.length using Nat.strongRecOn generalizing r s with
  | _ n ih =>
  subst hn
  rcases stripFrom_step r s with rfl | ⟨rfl, s, rfl⟩ | ⟨r', x, t, h⟩
  · rw [stripFrom]
    refine ⟨by cases r <;> rfl, .inl rfl, fun y hy _ => ?_⟩
    exact List.nil_prefix
  · exact ⟨rfl, .inr ⟨List.prefix_append _ _, rfl⟩, fun y _ _ => List.nil_prefix⟩
  · have hlen : t.length < s.length := by
      have := List.length_pos_iff.2 h.ne_nil
      rw [h.text, List.length_append]
      omega
    obtain ⟨hregion, hcut, hfirst⟩ := ih _ hlen r' t rfl
    have hkept := h.region _ (stripFrom_isPrefix r' t)
    have htext := h.text
    rw [h.strip]
    refine ⟨hregion.trans hkept.symm, ?_, fun y hy hc => ?_⟩
    · rw [hkept]
      rcases hcut with hcut | ⟨hcut, hc⟩
      · left
        rw [htext]
        exact congrArg (x ++ ·) hcut
      · right
        rw [htext, List.append_assoc]
        exact ⟨(List.prefix_append_right_inj x).2 hcut, hc⟩
    · obtain ⟨z, rfl⟩ := h.before y hy hc
      rw [htext, List.append_assoc, List.prefix_append_right_inj] at hy
      rw [h.region z ((List.prefix_append z _).trans hy)] at hc
      exact (List.prefix_append_right_inj x).2 (hfirst z hy hc)

theorem not_prefix_hyphens (x : Text) : ¬x ++ "--".toList <+: x := by
  intro h
  have hlen := h.length_le
  rw [List.length_append] at hlen
  exact absurd hlen (Nat.not_le_of_lt (Nat.lt_add_of_pos_right (by decide)))

/-- **What is left of a text is left again.** -/
theorem stripFrom_kept (r : Region) (s : Text) :
    stripFrom r (stripFrom r s).1 = stripFrom r s := by
  obtain ⟨hregion, -, hfirst⟩ := stripFrom_spec r s
  obtain ⟨hregion', hcut, -⟩ := stripFrom_spec r (stripFrom r s).1
  have hkept : (stripFrom r (stripFrom r s).1).1 = (stripFrom r s).1 := by
    rcases hcut with hcut | ⟨hcut, hc⟩
    · exact hcut
    · -- a comment in what is left would be one of the text
      have hkept := hfirst _ (hcut.trans (stripFrom_isPrefix r s)) hc
      exact absurd (hcut.trans hkept) (not_prefix_hyphens _)
  refine Prod.ext hkept ?_
  rw [hregion', hkept, hregion]

/-! ## Texts line by line -/

theorem stripLine_eq (q : Bool) (line : Text) : stripLine q line =
    ((stripFrom (.ofLine q) line).1, (stripFrom (.ofLine q) line).2.isQuasi) := rfl

theorem withoutComment_stripLine (q : Bool) (line : Text) :
    WithoutComment q line (stripLine q line).1 := by
  obtain ⟨-, hcut, hfirst⟩ := stripFrom_spec (.ofLine q) line
  rw [stripLine_eq]
  rcases hcut with hcut | ⟨⟨comment, hcut⟩, hc⟩
  · rw [hcut] at hfirst ⊢
    refine .whole fun x hx hcode => ?_
    exact not_prefix_hyphens x (hx.trans (hfirst x hx ((leads_iff q).1 hcode)))
  · refine .cut hcut.symm ((leads_iff q).2 hc) fun x hx hcode => ?_
    exact (hfirst x hx ((leads_iff q).1 hcode)).length_le

theorem stripLine_snd (q : Bool) (line : Text) : (stripLine q line).2 = true ↔
    Leads (.ofLine q) (stripLine q line).1 .quasi := by
  rw [leads_iff, stripLine_eq, ← (stripFrom_spec (.ofLine q) line).region]
  cases (stripFrom (.ofLine q) line).2 <;> simp [Region.isQuasi]

/-- **A run over some lines**: whether a quasi-literal is open where each line starts. -/
theorem exists_stripLines_run (q : Bool) (ls : List Text) : ∃ inQuasi : Nat → Bool,
    inQuasi 0 = q ∧ ∀ k line, ls[k]? = some line →
      (stripLines q ls)[k]? = some (stripLine (inQuasi k) line).1 ∧
        inQuasi (k + 1) = (stripLine (inQuasi k) line).2 := by
  induction ls generalizing q with
  | nil => exact ⟨fun _ => q, rfl, by simp⟩
  | cons l ls ih =>
    obtain ⟨inQuasi, h0, hrun⟩ := ih (stripLine q l).2
    refine ⟨fun | 0 => q | k + 1 => inQuasi k, rfl, fun k line hk => ?_⟩
    cases k with
    | zero =>
      obtain rfl := Option.some.inj hk
      exact ⟨rfl, h0⟩
    | succ k => exact hrun k line hk

theorem stripLines_stripLines (q : Bool) (ls : List Text) :
    stripLines q (stripLines q ls) = stripLines q ls := by
  induction ls generalizing q with
  | nil => rfl
  | cons l ls ih =>
    have hkept : stripLine q (stripLine q l).1 = stripLine q l := by
      rw [stripLine_eq, stripLine_eq, stripFrom_kept]
    rw [stripLines, stripLines, hkept, ih]

theorem lines_stripComments (s : Text) : lines (stripComments s) = stripLines false (lines s) := by
  have hne : stripLines false (lines s) ≠ [] := by
    rw [← List.length_pos_iff, length_stripLines, List.length_pos_iff]
    exact lines_ne_nil s
  exact lines_unlines hne (not_mem_of_mem_stripLines fun l => not_mem_of_mem_lines)

/-- **Comments are removed, and nothing else**: every line is cut at its first `--` outside
literals and quasi-literals, where a quasi-literal may go on from one line to the next, and a second
time nothing is removed. -/
theorem stripComments_lines (s : Text) :
    (lines (stripComments s)).length = (lines s).length ∧
    (∃ inQuasi : Nat → Bool, inQuasi 0 = false ∧ ∀ k line, (lines s)[k]? = some line →
      ∃ kept, (lines (stripComments s))[k]? = some kept ∧ WithoutComment (inQuasi k) line kept ∧
        (inQuasi (k + 1) = true ↔ Leads (.ofLine (inQuasi k)) kept .quasi)) ∧
    stripComments (stripComments s) = stripComments s := by
  refine ⟨?_, ?_, ?_⟩
  · rw [lines_stripComments, length_stripLines]
  · obtain ⟨inQuasi, h0, hrun⟩ := exists_stripLines_run false (lines s)
    refine ⟨inQuasi, h0, fun k line hk => ?_⟩
    obtain ⟨hkept, hnext⟩ := hrun k line hk
    rw [lines_stripComments, hnext]
    exact ⟨_, hkept, withoutComment_stripLine _ line, stripLine_snd _ line⟩
  · have hagain : stripComments (stripComments s) =
        unlines (stripLines false (lines (stripComments s))) := rfl
    rw [hagain, lines_stripComments, stripLines_stripLines]
    rfl

example : stripComments "[json|\n -- a\n|] -- b\n\"-- c\n-- d".toList =
    "[json|\n -- a\n|] \n\"-- c\n".toList := by decide

end SpecHarvest.Source
