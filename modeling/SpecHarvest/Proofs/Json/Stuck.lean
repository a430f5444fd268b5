import SpecHarvest.Proofs.Json.Accepted
import SpecHarvest.Proofs.Json.Rendering

/-!
# Texts that are not read

A text may hold something that no text in JSON proper holds, and then it does not matter what stands
around it.

* `Stuck s`: the text `s` is not read to its end, from no state. A text with a character that starts
  no token is stuck (`stuck_apostrophe`), and so is one with a string that is not followed by what
  may follow a value or a key (`stuck_string`).
* `Blocks t`: a text that goes on from `t` is stuck. `Passes t`: a text that goes on from `t` is
  stuck if its rest is.
* `Renders.passes_or_blocks`: a text that is written like JSON, with strings that are JSON strings
  or block, is JSON proper or blocks. `Value.parse?_eq_or_none`: so it is read as its value or not
  at all.
-/

namespace SpecHarvest.Json

/-- No reading of a text ends with a tree, whatever is read before. -/
def Stuck (s : Text) : Prop := ∀ σ t, ¬Scans s σ t

/-- A text that starts with `t` is stuck. -/
def Blocks (t : Text) : Prop := ∀ rest, Stuck (t ++ rest)

/-- A text is stuck after `t` if it is without `t`. -/
def Passes (t : Text) : Prop := ∀ rest, Stops rest → Stuck rest → Stuck (t ++ rest)

section

variable {c : Char} {s rest gap raw : Text} {k : Token}

theorem Stuck.space (hc : isSpace c = true) (h : Stuck s) : Stuck (c :: s) := by
  intro σ t hs
  cases hs with
  | space _ hs => exact h _ _ hs
  | token hc' => exact absurd hc (by simp [hc'])

theorem Stuck.spaces (hg : gap.all isSpace = true) (h : Stuck s) : Stuck (gap ++ s) := by
  induction gap with
  | nil => exact h
  | cons c gap ih =>
    rw [List.all_cons, Bool.and_eq_true] at hg
    exact .space hg.1 (ih hg.2)

theorem Stuck.token (hc : isSpace c = false) (hk : token? (c :: s) = some (k, rest))
    (h : Stuck rest) : Stuck (c :: s) := by
  intro σ t hs
  cases hs with
  | space hc' => exact absurd hc' (by simp [hc])
  | token _ hk' _ _ hs =>
    obtain ⟨-, rfl⟩ := Prod.mk.inj (Option.some.inj (hk.symm.trans hk'))
    exact h _ _ hs

/-- An apostrophe starts no token. -/
theorem stuck_apostrophe : Stuck ('\x27' :: s) := by
  intro σ t hs
  cases hs with
  | space hc => exact absurd hc (by decide)
  | token _ hk => cases hk

/-! ## After a string -/

/-- A string is a value or a key. -/
theorem complete_or_colon_of_step? {σ τ : State} (h : step? σ (.string raw) = some τ) :
    (∃ v o, τ = .complete v o) ∨ ∃ fs k o, τ = .colon fs k o := by
  cases σ with
  | value o => exact .inl ⟨_, _, (Option.some.inj h).symm⟩
  | item o => exact .inl ⟨_, _, (Option.some.inj h).symm⟩
  | field o => exact .inr ⟨_, _, _, (Option.some.inj h).symm⟩
  | key fs o => exact .inr ⟨_, _, _, (Option.some.inj h).symm⟩
  | colon fs k o => cases h
  | complete v o => rcases o with _ | ⟨_ | _, o⟩ <;> cases h

/-- A colon comes after a key. -/
theorem Scans.eq_colon {fs : List (Text × Tree)} {k : Text} {o : List Frame} {t : Tree}
    (h : Scans (c :: s) (.colon fs k o) t) (hc : isSpace c = false) : c = ':' := by
  cases h with
  | space hc' => exact absurd hc' (by simp [hc])
  | @token _ _ _ k' _ _ _ _ hk _ hstep _ =>
    obtain rfl : k' = .colon := by
      cases k' with
      | colon => rfl
      | _ => cases hstep
    have hmarks : ∀ m ∈ marks, m.2 = .colon → m.1 = ':' := by decide
    have hliterals : ∀ l ∈ literals, l.2 ≠ .colon := by decide
    generalize hs : c :: s = s' at hk
    have hat := tokenAt_of_token? hk
    cases hat with
    | mark hm =>
      obtain ⟨rfl, -⟩ := List.cons.inj hs
      exact hmarks _ hm rfl
    | literal hw => exact absurd rfl (hliterals _ hw)

/-- What may come right after a string. -/
def followsString (c : Char) : Bool :=
  isSpace c || c == ',' || c == ':' || c == ']' || c == '}'

/-- **A string that goes on** is neither a key nor a value. -/
theorem stuck_string (h : Content raw) (hc : followsString c = false) :
    Stuck ('"' :: (raw ++ '"' :: c :: rest)) := by
  simp only [followsString, Bool.or_eq_false_iff, beq_eq_false_iff_ne] at hc
  obtain ⟨⟨⟨⟨hspace, hcomma⟩, hcolon⟩, harray⟩, hobject⟩ := hc
  intro σ t hs
  cases hs with
  | space hc => exact absurd hc (by decide)
  | token _ hk _ hstep hs =>
    obtain ⟨htoken, rfl⟩ := Prod.mk.inj (Option.some.inj ((h.token? _).symm.trans hk))
    subst htoken
    rcases complete_or_colon_of_step? hstep with ⟨v, o, rfl⟩ | ⟨fs, k, o, rfl⟩
    · have hmem := hs.closes c (by simp [hspace])
      simp [hcomma, harray, hobject] at hmem
    · exact hcolon (hs.eq_colon hspace)

end

/-! ## The parts of a value -/

section

variable {t : Text}

theorem passes_null : Passes "null".toList := fun _ _ h => .token (by decide) rfl h

theorem passes_bool (b : Bool) : Passes (if b then "true".toList else "false".toList) := by
  intro rest _ h
  cases b with
  | true => exact .token (by decide) rfl h
  | false => exact .token (by decide) rfl h

theorem passes_int (k : Int) : Passes (Number.int k).render := by
  intro rest hr h
  obtain ⟨c, s, hs, hspace, htoken⟩ := exists_token?_render k hr
  rw [hs]
  exact .token hspace htoken h

/-- A string is passed, whatever follows it. -/
theorem JsonString.stuck {s : Text} {rest : Text} (h : JsonString t s) (hr : Stuck rest) :
    Stuck (t ++ rest) := by
  obtain ⟨raw, rfl, hraw⟩ := h
  have htext : '"' :: raw ++ ['"'] ++ rest = '"' :: (raw ++ '"' :: rest) := by simp
  rw [htext]
  exact .token (by decide) (hraw.content.token? rest) hr

end

section

variable {α : Type} {f : α → Text} {xs : List α} {opening closing : Char} {gap rest : Text}

theorem Stuck.closeBracket (hc : closing = ']' ∨ closing = '}') (h : Stuck rest) :
    Stuck (closing :: rest) := by
  rcases hc with rfl | rfl <;> exact .token (by decide) rfl h

theorem Stuck.openBracket (ho : opening = '[' ∨ opening = '{') (h : Stuck rest) :
    Stuck (opening :: rest) := by
  rcases ho with rfl | rfl <;> exact .token (by decide) rfl h

theorem passes_empty (ho : opening = '[' ∨ opening = '{') (hc : closing = ']' ∨ closing = '}')
    (hg : gap.all isSpace = true) : Passes (opening :: (gap ++ [closing])) := by
  intro rest _ h
  have htext : opening :: (gap ++ [closing]) ++ rest = opening :: (gap ++ closing :: rest) := by
    simp
  rw [htext]
  exact (Stuck.spaces hg (h.closeBracket hc)).openBracket ho

theorem stops_bracket (hc : closing = ']' ∨ closing = '}') (rest : Text) :
    Stops (xs.flatMap (fun x => ',' :: f x) ++ closing :: rest) := by
  rw [← List.nil_append (closing :: rest)]
  exact stops_tail rfl hc rest

/-- The items after the first are stuck if one of them blocks or the rest is stuck. -/
theorem stuck_tail (hc : closing = ']' ∨ closing = '}') (h : ∀ x ∈ xs, Passes (f x) ∨ Blocks (f x))
    (hr : Stuck rest ∨ ∃ x ∈ xs, Blocks (f x)) :
    Stuck (xs.flatMap (fun x => ',' :: f x) ++ closing :: rest) := by
  induction xs with
  | nil => exact (hr.resolve_right (by simp)).closeBracket hc
  | cons x xs ih =>
    rw [List.forall_mem_cons] at h
    rw [List.flatMap_cons, List.append_assoc, List.cons_append]
    refine .token (by decide) rfl ?_
    by_cases hx : Blocks (f x)
    · exact hx _
    · refine h.1.resolve_right hx _ (stops_bracket hc rest) (ih h.2 ?_)
      simpa [hx] using hr

theorem stuck_layout (ho : opening = '[' ∨ opening = '{') (hc : closing = ']' ∨ closing = '}')
    (h : ∀ x ∈ xs, Passes (f x) ∨ Blocks (f x)) (hr : Stuck rest ∨ ∃ x ∈ xs, Blocks (f x)) :
    Stuck (layout opening closing [] [] (xs.map f) ++ rest) := by
  cases xs with
  | nil => exact ((hr.resolve_right (by simp)).closeBracket hc).openBracket ho
  | cons x xs =>
    have htext : layout opening closing [] [] ((x :: xs).map f) ++ rest =
        opening :: (f x ++ (xs.flatMap (fun x => ',' :: f x) ++ closing :: rest)) := by
      simp [layout, List.flatMap_map]
    rw [List.forall_mem_cons] at h
    rw [htext]
    refine Stuck.openBracket ho ?_
    by_cases hx : Blocks (f x)
    · exact hx _
    · refine h.1.resolve_right hx _ (stops_bracket hc rest) (stuck_tail hc h.2 ?_)
      simpa [hx] using hr

end

/-! ## Whole texts -/

/-- A JSON string, or what no reading gets past. -/
def StringOrBlock (t s : Text) : Prop := JsonString t s ∨ Blocks t

theorem WrittenField.IsKeyed.passes_or_blocks {f : WrittenField} (hf : f.IsKeyed StringOrBlock)
    {P : Prop} (h : P ∧ Passes f.text ∨ Blocks f.text) :
    (JsonString f.keyText f.key ∧ P ∧ Passes f.full) ∨ Blocks f.full := by
  have htext : ∀ rest, f.full ++ rest =
      f.before ++ (f.keyText ++ (f.after ++ ':' :: (f.text ++ rest))) := by
    simp [WrittenField.full]
  have hvalue : ∀ {rest}, JsonString f.keyText f.key → Stuck (f.text ++ rest) →
      Stuck (f.full ++ rest) := by
    intro rest hk hs
    rw [htext]
    exact .spaces hf.before (hk.stuck (.spaces hf.after (.token (by decide) rfl hs)))
  rcases hf.key with hk | hk
  · rcases h with ⟨hp, h⟩ | h
    · exact .inl ⟨hk, hp, fun rest hr hs => hvalue hk (h rest hr hs)⟩
    · exact .inr fun rest => hvalue hk (h rest)
  · refine .inr fun rest => ?_
    rw [htext]
    exact .spaces hf.before (hk _)

/-- **A text that is written like JSON** is JSON proper, or no reading gets past it. -/
theorem Renders.passes_or_blocks {t : Text} {v : Value}
    (h : Renders StringOrBlock StringOrBlock t v) :
    (Renders JsonString JsonString t v ∧ Passes t) ∨ Blocks t := by
  induction h with
  | null => exact .inl ⟨.null, passes_null⟩
  | bool b => exact .inl ⟨.bool b, passes_bool b⟩
  | int k => exact .inl ⟨.int k, passes_int k⟩
  | string h => exact h.imp (fun h => ⟨.string h, fun _ _ => h.stuck⟩) id
  | emptyArray hg => exact .inl ⟨.emptyArray hg, passes_empty (.inl rfl) (.inl rfl) hg⟩
  | @array items _ ih =>
    have hitems : ∀ i ∈ items, Passes i.1 ∨ Blocks i.1 := fun i hi => (ih i hi).imp_left And.right
    by_cases hb : ∃ i ∈ items, Blocks i.1
    · exact .inr fun rest => stuck_layout (.inl rfl) (.inl rfl) hitems (.inr hb)
    · have hproper : ∀ i ∈ items, Renders JsonString JsonString i.1 i.2 :=
        fun i hi => ((ih i hi).resolve_right fun h => hb ⟨i, hi, h⟩).1
      exact .inl ⟨.array hproper,
        fun rest _ hr => stuck_layout (.inl rfl) (.inl rfl) hitems (.inl hr)⟩
  | emptyObject hg => exact .inl ⟨.emptyObject hg, passes_empty (.inr rfl) (.inr rfl) hg⟩
  | @object fields hf _ ih =>
    have hfields := fun f h => (hf f h).passes_or_blocks (ih f h)
    have hfull : ∀ f ∈ fields, Passes f.full ∨ Blocks f.full :=
      fun f h => (hfields f h).imp_left fun h => h.2.2
    by_cases hb : ∃ f ∈ fields, Blocks f.full
    · exact .inr fun rest => stuck_layout (.inr rfl) (.inr rfl) hfull (.inr hb)
    · have hproper := fun f h => (hfields f h).resolve_right fun hf => hb ⟨f, h, hf⟩
      exact .inl ⟨.object (fun f h => ⟨(hf f h).before, (hf f h).after, (hproper f h).1⟩)
          fun f h => (hproper f h).2.1,
        fun rest _ hr => stuck_layout (.inr rfl) (.inr rfl) hfull (.inl hr)⟩
  | spaceBefore hc _ ih =>
    rcases ih with ⟨h, hp⟩ | h
    · exact .inl ⟨.spaceBefore hc h, fun rest hr hs => .space hc (hp rest hr hs)⟩
    · exact .inr fun rest => .space hc (h rest)
  | @spaceAfter c t v hc _ ih =>
    have htext : ∀ rest, t ++ [c] ++ rest = t ++ c :: rest := fun rest => List.append_assoc _ _ _
    rcases ih with ⟨h, hp⟩ | h
    · refine .inl ⟨.spaceAfter hc h, fun rest _ hs => ?_⟩
      rw [htext]
      exact hp _ (stops_of_isSpace hc rest) (.space hc hs)
    · exact .inr fun rest => htext rest ▸ h _

/-- **A text that is written like JSON** is read as its value or not at all. -/
theorem Value.parse?_eq_or_none {t : Text} {v : Value} (h : Renders StringOrBlock StringOrBlock t v)
    (hv : v.Regular) (hd : v.depth ≤ maxDepth) : parse? t = some v ∨ parse? t = none := by
  rcases h.passes_or_blocks with ⟨h, -⟩ | h
  · exact .inl (parse?_of_renders h hv hd)
  · right
    have hnone : Tree.parse? t = none := by
      rw [Option.eq_none_iff_forall_ne_some]
      intro u hu
      have hs := Tree.scans_of_parse? hu
      rw [← List.append_nil t] at hs
      exact h [] _ _ hs
    rw [parse?, hnone, Option.bind_none]

end SpecHarvest.Json
