import SpecHarvest.Proofs.Block.Leaf
import SpecHarvest.Proofs.HeaderExpr.ReadAlike
import SpecHarvest.Proofs.Source.Trailing
import SpecHarvest.Proofs.Text.Padding

/-!
# Lines with a comment after them

Comments are taken out of the texts of blocks only, so every other reader of a line meets them.

* `Trailed`: what is left of a line and of the line with a comment. The readers of a line are told
  by it.
* `kindOf_append_trailing`: a comment after a line does not change what the line declares if the line
  ends in code and binds no name. `kindOf_append_trailing_of_binding`: what a line binds has the
  comment in it, and is no header expression.
-/

namespace SpecHarvest

open Text Source

/-! ## Readers of a line -/

/-- What is left of a line and of the line with a comment, once white space is skipped. -/
def Trailed (c u v : Text) : Prop := v = u ++ trailing c ∨ u = [] ∧ v = "-- ".toList ++ c

theorem trailed_trimStart (c s : Text) :
    Trailed c (trimStart s) (trimStart (s ++ trailing c)) := by
  rw [trimStart_append]
  split
  · rename_i h
    have ht : trimStart (trailing c) = "-- ".toList ++ c := by
      rw [trailing_eq, trimStart, List.dropWhile_cons_of_pos (by decide)]
      rfl
    exact .inr ⟨h, ht⟩
  · exact .inl rfl

theorem after?_append_cons {lit : Text} {d : Char} (hd : d ∉ lit) (s z : Text) :
    after? lit (s ++ d :: z) = (after? lit s).map (· ++ d :: z) := by
  induction lit generalizing s with
  | nil => rfl
  | cons l lit ih =>
    simp only [List.mem_cons, not_or] at hd
    cases s with
    | nil => simp [after?, Ne.symm hd.1]
    | cons e s =>
      by_cases he : l = e
      · simp [after?, he, ih hd.2]
      · simp [after?, he]

theorem after?_append_trailing {lit : Text} (hl : ' ' ∉ lit) (s c : Text) :
    after? lit (s ++ trailing c) = (after? lit s).map (· ++ trailing c) :=
  after?_append_cons hl s _

theorem Trailed.after? {c u v lit : Text} (h : Trailed c u v) (hl : ' ' ∉ lit)
    (hh : ∃ d r, lit = d :: r ∧ d ≠ '-') :
    Option.Rel (fun p q => q = p ++ trailing c) (after? lit u) (after? lit v) := by
  obtain ⟨d, r, rfl, hd⟩ := hh
  rcases h with rfl | ⟨rfl, rfl⟩
  · rw [after?_append_trailing hl]
    cases Text.after? (d :: r) u with
    | none => exact .none
    | some p => exact .some rfl
  · simp [Text.after?, hd]

theorem Trailed.identifier? {c u v : Text} (h : Trailed c u v) :
    Option.Rel (fun p q => q = (p.1, p.2 ++ trailing c)) (identifier? u) (identifier? v) := by
  rcases h with rfl | ⟨rfl, rfl⟩
  · have hs : isIdentChar ' ' = false := by decide
    have hsplit : ∀ w : Text, (w ++ trailing c).takeWhile isIdentChar = w.takeWhile isIdentChar ∧
        (w ++ trailing c).dropWhile isIdentChar = w.dropWhile isIdentChar ++ trailing c := by
      intro w
      induction w with
      | nil => simp [trailing_eq, hs]
      | cons e w ih => cases he : isIdentChar e <;> simp [he, ih]
    unfold Source.identifier?
    simp only [(hsplit u).1, (hsplit u).2]
    split
    · exact .none
    · exact .some rfl
  · have hd : isIdentChar '-' = false := by decide
    simp [Source.identifier?, hd]

theorem rel_word?_trailing {w : Text} (hw : ' ' ∉ w) (s c : Text) :
    Option.Rel (fun p q => q = p ++ trailing c) (word? w s) (word? w (s ++ trailing c)) := by
  have hend : endsHere isIdentChar (trailing c) = true := rfl
  unfold word?
  rw [after?_append_trailing hw]
  cases Text.after? w s with
  | none => exact .none
  | some r =>
    rw [Option.map_some, Option.filter_some, Option.filter_some, endsHere_append hend]
    split
    · exact .some rfl
    · exact .none

/-- A reader after white space. It must not read a comment. -/
theorem rel_blanks?_bind {α β : Type} {R : α → β → Prop} {f : Text → Option α}
    {g : Text → Option β} {c s : Text} (hnil : g ("-- ".toList ++ c) = none)
    (hread : Option.Rel R (f (trimStart s)) (g (trimStart (s ++ trailing c)))) :
    Option.Rel R ((blanks? s).bind f) ((blanks? (s ++ trailing c)).bind g) := by
  cases s with
  | nil =>
    have hs : blanks? (trailing c) = some ("-- ".toList ++ c) := rfl
    rw [List.nil_append, hs, Option.bind_some, hnil]
    exact .none
  | cons b s =>
    cases hb : Text.isBlank b with
    | true =>
      have hskip : ∀ t, trimStart (b :: t) = trimStart t :=
        fun t => List.dropWhile_cons_of_pos hb
      rw [List.cons_append, hskip, hskip] at hread
      simpa [blanks?, hb] using hread
    | false => simp [blanks?, hb]

namespace Line

/-- Whether a text starts a binding, of whatever expression. -/
def startsBinding (s : Text) : Bool :=
  ((word? "let".toList s).bind fun s => (blanks? s).bind fun s => (identifier? s).bind fun p =>
    after? ['='] (trimStart p.2)).isSome

theorem startsBinding_append_trailing (s c : Text) :
    startsBinding (s ++ trailing c) = startsBinding s := by
  refine (isSome_eq_of_rel (R := fun p q => q = p ++ trailing c) ?_).symm
  refine rel_bind (rel_word?_trailing (by decide) s c) fun u v huv => ?_
  subst huv
  refine rel_blanks?_bind ?_ ?_
  · rfl
  · refine rel_bind (trailed_trimStart c u).identifier? fun p q hpq => ?_
    subst hpq
    exact (trailed_trimStart c p.2).after? (by decide) ⟨'=', [], rfl, by decide⟩

theorem binding?_eq_none {s : Text} (h : startsBinding s = false) : binding? s = none := by
  unfold startsBinding at h
  unfold binding?
  simp only [Option.bind_eq_bind]
  cases hw : word? "let".toList s with
  | none => rfl
  | some s₁ =>
    cases hb : blanks? s₁ with
    | none => simp [hb]
    | some s₂ =>
      cases hi : identifier? s₂ with
      | none => simp [hb, hi]
      | some p =>
        obtain ⟨name, s₃⟩ := p
        have ha : after? ['='] (trimStart s₃) = none := by
          rw [hw, Option.bind_some, hb, Option.bind_some, hi, Option.bind_some] at h
          exact Option.isSome_eq_false_iff.1 h |> Option.isNone_iff_eq_none.1
        simp [hb, hi, ha]

theorem isSpecHead_append_trailing (s c : Text) :
    isSpecHead (s ++ trailing c) = isSpecHead s := by
  unfold isSpecHead
  rcases cases_of_rel (rel_word?_trailing (w := "spec".toList) (by decide) s c) with
    ⟨hs, ht⟩ | ⟨u, v, hs, ht, rfl⟩
  · rw [hs, ht]
  · have h := trailed_trimStart c u
    have hcolon : startsWith "::".toList (trimStart u) =
        startsWith "::".toList (trimStart (u ++ trailing c)) :=
      isSome_eq_of_rel (h.after? (by decide) ⟨_, _, rfl, by decide⟩)
    have hequals : startsWith ['='] (trimStart u) = startsWith ['='] (trimStart (u ++ trailing c)) :=
      isSome_eq_of_rel (h.after? (by decide) ⟨_, _, rfl, by decide⟩)
    rw [hs, ht]
    simp only [hcolon, hequals]

/-! ### Declarations -/

theorem region_append_plain {x : Text} (h : ∀ d ∈ x, IsPlain d) (s : Text) :
    (stripFrom .code (x ++ s)).2 = (stripFrom .code s).2 := by
  induction x with
  | nil => rfl
  | cons d x ih =>
    obtain ⟨hq, hm, hb⟩ := h d List.mem_cons_self
    have hopens : ¬OpensHere (d :: (x ++ s)) := by
      simp only [OpensHere, startsWith_iff, not_or, not_exists]
      refine ⟨fun t ht => hm (List.cons.inj ht).1, fun t ht => hb (List.cons.inj ht).1⟩
    rw [List.cons_append, stripFrom_code_cons_of_not_opens hopens, if_neg hq]
    exact ih fun e he => h e (List.mem_cons_of_mem _ he)

theorem region_trimStart (s : Text) :
    (stripFrom .code (trimStart s)).2 = (stripFrom .code s).2 := by
  conv_rhs => rw [← takeWhile_append_trimStart s]
  exact (region_append_plain (isPlain_of_allBlank (allBlank_takeWhile s)) _).symm

/-- A literal that is not closed goes on to the end of its line. -/
theorem region_of_closeQuote?_eq_none {s : Text} (h : closeQuote? s = none) :
    (stripFrom .literal s).2 = .literal := by
  fun_induction closeQuote? s with
  | case1 => rfl
  | case2 c s ih => exact ih (Option.map_eq_none_iff.1 h)
  | case3 => cases h
  | case4 c s hb hc ih =>
    rw [stripFrom_literal_cons fun d t hd ht => hb d t hd ht, if_neg hc]
    exact ih (Option.map_eq_none_iff.1 h)

theorem rel_quoted?_trailing {c u v : Text} (h : Trailed c u v)
    (hcode : (stripFrom .code u).2 = .code) :
    Option.Rel (fun p q => p.1 = q.1) (quoted? u) (quoted? v) := by
  rcases h with rfl | ⟨rfl, rfl⟩
  · cases u with
    | nil => exact .none
    | cons d u =>
      by_cases hd : d = '"'
      · subst hd
        have hopens : ¬OpensHere ('"' :: u) := by
          simp only [OpensHere, startsWith_iff, not_or, not_exists]
          refine ⟨fun t ht => ?_, fun t ht => ?_⟩
          · cases ht
          · cases ht
        rw [stripFrom_code_cons_of_not_opens hopens, if_pos rfl] at hcode
        show Option.Rel _ (closeQuote? u) (closeQuote? (u ++ trailing c))
        cases hq : closeQuote? u with
        | none =>
          have hlit : (stripFrom .literal u).2 = .code := hcode
          rw [region_of_closeQuote?_eq_none hq] at hlit
          cases hlit
        | some p =>
          obtain ⟨raw, rest⟩ := p
          have ht : closeQuote? (u ++ trailing c) = some (raw, rest ++ trailing c) := by
            rw [eq_of_closeQuote? hq, List.append_assoc]
            exact (raw_of_closeQuote? hq).closeQuote? _
          rw [ht]
          exact .some rfl
      · simp [quoted?, hd]
  · exact .none

/-- Words that start a declaration. -/
def IsDeclarator (w : Text) : Prop := ' ' ∉ w ∧ ∀ d ∈ w, IsPlain d

theorem declared?_append_trailing {words : List Text} (hw : ∀ w ∈ words, IsDeclarator w)
    {s : Text} (c : Text) (h : (stripFrom .code s).2 = .code) :
    declared? words (s ++ trailing c) = declared? words s := by
  have hfind : Option.Rel (fun p q => q = p ++ trailing c ∧ (stripFrom .code p).2 = .code)
      (words.findSome? (after? · s)) (words.findSome? (after? · (s ++ trailing c))) := by
    induction words with
    | nil => exact .none
    | cons w words ih =>
      obtain ⟨hspace, hplain⟩ := hw w List.mem_cons_self
      rw [List.findSome?_cons, List.findSome?_cons, after?_append_trailing hspace]
      cases ha : after? w s with
      | none => exact ih fun v hv => hw v (List.mem_cons_of_mem _ hv)
      | some r =>
        rw [after?_eq_some_iff.1 ha, region_append_plain hplain] at h
        exact .some ⟨rfl, h⟩
  have hrel : Option.Rel Eq (declared? words s) (declared? words (s ++ trailing c)) := by
    refine rel_bind hfind fun u v huv => ?_
    obtain ⟨rfl, hu⟩ := huv
    refine rel_blanks?_bind (f := fun s => (quoted? s).bind fun p => some p.1)
      (g := fun s => (quoted? s).bind fun p => some p.1) rfl ?_
    rw [← region_trimStart] at hu
    exact rel_bind (rel_quoted?_trailing (trailed_trimStart c u) hu) fun _ _ hp => .some hp
  rcases cases_of_rel hrel with ⟨hs, ht⟩ | ⟨a, b, hs, ht, rfl⟩
  · rw [hs, ht]
  · rw [hs, ht]

theorem boilerplate_append_trailing {s c : Text}
    (h : boilerplate.any (startsWith · (s ++ trailing c)) = true) :
    boilerplate.any (startsWith · s) = true ∨ s = "module".toList ∨ s = "import".toList := by
  obtain ⟨lit, hm, hlit⟩ := List.any_eq_true.1 h
  simp only [boilerplate, List.mem_cons, List.not_mem_nil, or_false] at hm
  have hspace : ∀ w : Text, lit = w ++ [' '] → ' ' ∉ w →
      startsWith lit s = true ∨ s = w := by
    rintro w rfl hw
    have hsplit : ∀ r : Text, after? (w ++ [' ']) r = (after? w r).bind (after? [' ']) := by
      intro r
      clear hlit hm
      induction w generalizing r with
      | nil => rfl
      | cons d w ih =>
        cases r with
        | nil => rfl
        | cons e r =>
          simp only [List.mem_cons, not_or] at hw
          by_cases he : d = e
          · simp [after?, he, ih hw.2]
          · simp [after?, he]
    unfold startsWith at hlit ⊢
    rw [hsplit, after?_append_trailing hw] at hlit
    rw [hsplit]
    cases ha : after? w s with
    | none => simp [ha] at hlit
    | some r =>
      cases r with
      | nil => exact .inr (by simpa using after?_eq_some_iff.1 ha)
      | cons d r =>
        left
        simpa [ha, after?] using hlit
  have hplain : ' ' ∉ lit → startsWith lit s = true := by
    intro hl
    unfold startsWith at hlit ⊢
    rw [after?_append_trailing hl] at hlit
    simpa using hlit
  have hany : lit ∈ boilerplate → startsWith lit s = true →
      boilerplate.any (startsWith · s) = true :=
    fun hm hs => List.any_eq_true.2 ⟨lit, hm, hs⟩
  rcases hm with hm | hm | hm | hm
  · rcases hspace "module".toList hm (by decide) with hs | hs
    · exact .inl (hany (by simp [boilerplate, hm]) hs)
    · exact .inr (.inl hs)
  · rcases hspace "import".toList hm (by decide) with hs | hs
    · exact .inl (hany (by simp [boilerplate, hm]) hs)
    · exact .inr (.inr hs)
  · exact .inl (hany (by simp [boilerplate, hm]) (hplain (by rw [hm]; decide)))
  · exact .inl (hany (by simp [boilerplate, hm]) (hplain (by rw [hm]; decide)))

theorem kindOf_of_boilerplate {s : Text} (h : boilerplate.any (startsWith · s) = true) :
    kindOf s = .other := by
  rw [kindOf, h]
  rfl

theorem kindOf_of_boilerplate_append {s c : Text}
    (h : boilerplate.any (startsWith · (s ++ trailing c)) = true) : kindOf s = .other := by
  rcases boilerplate_append_trailing h with hs | rfl | rfl
  · exact kindOf_of_boilerplate hs
  · decide
  · decide

/-- **What a line declares** is not changed by a comment, if the line ends in code and binds no
name. -/
theorem kindOf_append_trailing {s : Text} (c : Text) (h : (stripFrom .code s).2 = .code)
    (hb : startsBinding s = false) : kindOf (s ++ trailing c) = kindOf s := by
  have hscope : ∀ w ∈ ["describe".toList, "context".toList], IsDeclarator w := by
    intro w hw
    rcases List.mem_pair.1 hw with rfl | rfl
    · exact ⟨by decide, by simp [IsPlain]⟩
    · exact ⟨by decide, by simp [IsPlain]⟩
  have htest : ∀ w ∈ ["it".toList], IsDeclarator w := by
    intro w hw
    obtain rfl := List.mem_singleton.1 hw
    exact ⟨by decide, isPlain_of_mem_it⟩
  have hb' : startsBinding (s ++ trailing c) = false := by rwa [startsBinding_append_trailing]
  cases hbp : boilerplate.any (startsWith · (s ++ trailing c)) with
  | true => rw [kindOf_of_boilerplate hbp, kindOf_of_boilerplate_append hbp]
  | false =>
    have hs : boilerplate.any (startsWith · s) = false := by
      rw [Bool.eq_false_iff, ne_eq, List.any_eq_true]
      rintro ⟨lit, hm, hlit⟩
      obtain ⟨r, rfl⟩ := startsWith_iff.1 hlit
      refine Bool.eq_false_iff.1 hbp (List.any_eq_true.2 ⟨lit, hm, startsWith_iff.2 ?_⟩)
      exact ⟨r ++ trailing c, List.append_assoc ..⟩
    unfold kindOf
    rw [hbp, hs, isSpecHead_append_trailing, binding?_eq_none hb, binding?_eq_none hb',
      declared?_append_trailing hscope c h, declared?_append_trailing htest c h]

/-! ### Bindings -/

theorem kindOf_eq_binding_iff {s name expr : Text} : kindOf s = .binding name expr ↔
    (boilerplate.any (startsWith · s) || isSpecHead s) = false ∧
      binding? s = some (.binding name expr) := by
  unfold kindOf
  split
  · next h => simp [h]
  · next h =>
    rw [Bool.not_eq_true] at h
    cases hb : binding? s with
    | some k => simp [h]
    | none =>
      refine iff_of_false (fun hk => ?_) (by simp)
      rcases Option.getD_eq_iff.1 hk with hk | ⟨-, hk⟩
      · rcases Option.or_eq_some_iff.1 hk with hk | ⟨-, hk⟩
        · cases hk
        rcases Option.or_eq_some_iff.1 hk with hk | ⟨-, hk⟩
        · obtain ⟨_, -, he⟩ := Option.map_eq_some_iff.1 hk
          cases he
        · obtain ⟨_, -, he⟩ := Option.map_eq_some_iff.1 hk
          cases he
      · cases hk

/-- What starts a binding is passed over, and all that follows is bound, a comment too. -/
theorem exists_of_binding?_eq {s name expr : Text} (h : binding? s = some (.binding name expr)) :
    ∃ front rest, s = front ++ rest ∧ (∀ d ∈ front, IsPlain d) ∧ expr = trim rest ∧
      ∀ c, binding? (s ++ trailing c) = some (.binding name (trim (rest ++ trailing c))) := by
  simp only [binding?, Option.bind_eq_bind, Option.bind_eq_some_iff, Prod.exists] at h
  obtain ⟨s₁, hw, s₂, hb, name', s₃, hi, rest, he, h⟩ := h
  split at h
  · cases h
  obtain ⟨rfl, rfl⟩ := LineKind.binding.inj (Option.some.inj h)
  obtain ⟨rfl, hend⟩ := word?_eq_some_iff.1 hw
  obtain ⟨⟨gap, rfl⟩, htrim⟩ := blanks?_eq_some_iff.1 hb
  obtain ⟨rfl, hne, hname, hname'⟩ := identifier?_eq_some_iff.1 hi
  have hequals := after?_eq_some_iff.1 he
  refine ⟨"let".toList ++ (gap.1 ++ (name' ++ (s₃.takeWhile Text.isBlank ++ ['=']))), rest, ?_, ?_,
    rfl, fun c => ?_⟩
  · simp only [List.append_assoc, ← hequals, takeWhile_append_trimStart]
  · simp only [List.forall_mem_append]
    exact ⟨by simp [IsPlain], isPlain_of_allBlank gap.2.2,
      fun d hd => isPlain_of_isIdentChar (List.all_eq_true.1 hname d hd),
      isPlain_of_allBlank (allBlank_takeWhile s₃), by simp [IsPlain]⟩
  · have hstop : endsHere isIdentChar (trailing c) = true := rfl
    have hw' : word? "let".toList ("let".toList ++ (gap.1 ++ (name' ++ s₃)) ++ trailing c) =
        some (gap.1 ++ (name' ++ s₃) ++ trailing c) :=
      word?_eq_some_iff.2 ⟨List.append_assoc .., by rwa [endsHere_append hstop]⟩
    have hb' : blanks? (gap.1 ++ (name' ++ s₃) ++ trailing c) = some (name' ++ s₃ ++ trailing c) := by
      refine blanks?_eq_some_iff.2 ⟨⟨gap, List.append_assoc ..⟩, ?_⟩
      rw [trimStart_append, htrim, if_neg (by simp [hne])]
    have hi' : identifier? (name' ++ s₃ ++ trailing c) = some (name', s₃ ++ trailing c) :=
      identifier?_eq_some_iff.2
        ⟨List.append_assoc .., hne, hname, by rwa [endsHere_append hstop]⟩
    have he' : after? ['='] (trimStart (s₃ ++ trailing c)) = some (rest ++ trailing c) := by
      rw [after?_eq_some_iff, trimStart_append, hequals, if_neg (by simp), List.append_assoc]
    have hsome : (rest ++ trailing c).isEmpty = false := by simp [trailing_eq]
    simp only [binding?, Option.bind_eq_bind, hw', hb', hi', he', Option.bind_some, hsome]
    rfl

/-- **What a line binds** with a comment after it is no header expression. -/
theorem kindOf_append_trailing_of_binding {s name expr : Text} (c : Text)
    (h : (stripFrom .code s).2 = .code) (hk : kindOf s = .binding name expr) :
    ∃ expr', kindOf (s ++ trailing c) = .binding name expr' ∧ HeaderExpr.parse? expr' = none := by
  obtain ⟨hhead, hb⟩ := kindOf_eq_binding_iff.1 hk
  obtain ⟨front, rest, rfl, hplain, -, hbound⟩ := exists_of_binding?_eq hb
  refine ⟨trim (rest ++ trailing c), kindOf_eq_binding_iff.2 ⟨?_, hbound c⟩, ?_⟩
  · rw [Bool.or_eq_false_iff] at hhead ⊢
    refine ⟨Bool.eq_false_iff.2 fun hany => ?_, by rw [isSpecHead_append_trailing, hhead.2]⟩
    rw [kindOf_of_boilerplate_append hany] at hk
    cases hk
  · rw [region_append_plain hplain] at h
    have hread := HeaderExpr.parse?_append_trailing c h
    unfold HeaderExpr.parse? at hread ⊢
    rwa [trim_trim]

end Line

end SpecHarvest
