import SpecHarvest.HeaderMatcher
import SpecHarvest.Proofs.Source.Keyword
import SpecHarvest.Proofs.Source.Nested
import SpecHarvest.Proofs.Source.Reader

/-!
# Header matchers as they are written

* `Written s raws m`: how a matcher is written, white space between its parts included, with what
  its literals hold. `parse?_of_written`: such a text is read as that matcher.
* `HeaderMatchers.Listed s raws ms`: matchers written as a bracketed list.
  `HeaderMatchers.parse?_of_listed`: a list is read as its matchers, in their order.
-/

namespace SpecHarvest

open Text Source Http

namespace HeaderMatcher

/-! ## Forms -/

/-- The characters of a token, which the name of a header is. -/
def isTokenChar (c : Char) : Bool := c.isAlphanum || "!#$%&'*+-.^_`|~".toList.contains c

/-- The name of a header. -/
structure IsToken (name : Text) : Prop where
  ne_nil : name ≠ []
  all_isTokenChar : name.all isTokenChar = true

instance (name : Text) : Decidable (IsToken name) :=
  decidable_of_iff (name ≠ [] ∧ name.all isTokenChar = true)
    ⟨fun h => ⟨h.1, h.2⟩, fun h => ⟨h.1, h.2⟩⟩

/-- How a matcher is written. -/
inductive Written : Text → List Text → HeaderMatcher → Prop
  | exact (g₁ g₂ : Gap) {name raw value : Text} : IsToken name → raw ≠ [] → Denotes raw value →
    Written ('"' :: (name ++ '"' :: (g₁.1 ++ ("<:>".toList ++ (g₂.1 ++ '"' :: (raw ++ ['"']))))))
      [name, raw] (.exact name value)
  | absent (g : Space) {raw name : Text} : raw ≠ [] → Denotes raw name →
    Written ("matchHeaderAbsent".toList ++ (g.1 ++ '"' :: (raw ++ ['"']))) [raw] (.absent name)
  | absentContentType (g : Space) :
    Written ("matchHeaderAbsent".toList ++ (g.1 ++ "hContentType".toList)) [] (.absent contentType)
  | contentType {p : Text × Text} : p ∈ contentTypes →
    Written p.1 [] (.exact HeaderMatcher.contentType p.2)

variable {s : Text} {raws : List Text} {m : HeaderMatcher}

/-! ## Tokens -/

theorem ne_of_isTokenChar {c : Char} (h : isTokenChar c = true) : c ≠ '"' ∧ c ≠ '\\' ∧ c ≠ '<' := by
  refine ⟨?_, ?_, ?_⟩ <;>
  · rintro rfl
    revert h
    decide

theorem IsToken.denotes {name : Text} (h : IsToken name) : Denotes name name := by
  have hall := h.all_isTokenChar
  clear h
  induction name with
  | nil => exact ⟨.nil, rfl⟩
  | cons c name ih =>
    rw [List.all_cons, Bool.and_eq_true] at hall
    obtain ⟨hq, hb, -⟩ := ne_of_isTokenChar hall.1
    obtain ⟨hraw, heq⟩ := ih hall.2
    exact ⟨.plain hq hb hraw, by rw [unescape_cons hb, heq]⟩

theorem IsToken.not_mem {name : Text} (h : IsToken name) {c : Char} (hc : isTokenChar c = false) :
    c ∉ name :=
  not_mem_of_all h.all_isTokenChar hc

/-! ## Exact pairs -/

theorem operator_eq : "<:>".toList = '<' :: ":>".toList := by decide

theorem exactPair?_eq_none_of_not_mem (h : '<' ∉ s) : exactPair? s = none := by
  have hcut : cut? "<:>".toList s = none := by
    rw [Option.eq_none_iff_forall_ne_some]
    rintro ⟨left, right⟩ hc
    exact h (by rw [eq_of_cut? hc, operator_eq]; simp)
  rw [exactPair?, hcut]
  rfl

/-- No literal starts after an operator that stands in a literal. -/
theorem quoted?_eq_none_of_raw {raw x right : Text} (h : Raw raw)
    (hs : raw ++ ['"'] = x ++ '>' :: right) : quoted? (trimStart right) = none := by
  rw [Option.eq_none_iff_forall_ne_some]
  rintro ⟨value, rest⟩ hq
  have hw := takeWhile_append_trimStart right
  have hblank := allBlank_takeWhile right
  rw [(quoted?_eq_some_iff.1 hq).2] at hw
  generalize right.takeWhile isBlank = w at hw hblank
  -- the quote is not the closing one, for something is closed after it
  obtain ⟨z, last, hz⟩ : ∃ z last, value ++ '"' :: rest = z ++ [last] :=
    ⟨_, _, (List.dropLast_append_getLast (by simp)).symm⟩
  have hraw : raw = x ++ '>' :: (w ++ '"' :: z) := by
    have hs' : raw ++ ['"'] = (x ++ '>' :: (w ++ '"' :: z)) ++ [last] := by
      rw [hs, ← hw, hz]
      simp
    exact (List.append_inj' hs' rfl).1
  obtain ⟨y, b, hb⟩ : ∃ y b, '>' :: w = y ++ [b] :=
    ⟨_, _, (List.dropLast_concat_getLast (List.cons_ne_nil '>' w)).symm⟩
  have hne : b ≠ '\\' := by
    rintro rfl
    have hm : '\\' ∈ '>' :: w := hb ▸ by simp
    rcases List.mem_cons.1 hm with hm | hm
    · exact absurd hm (by decide)
    · exact not_mem_of_all hblank (by decide) hm
  have hshape : raw = (x ++ y) ++ b :: '"' :: z := by
    rw [hraw, ← List.cons_append, hb]
    simp
  exact Raw.not_bare_quote hne (hshape ▸ h)

/-- An operator in the only literal of a text makes no pair of it. -/
theorem exactPair?_eq_none_of_literal {x raw : Text} (hx : '<' ∉ x) (h : Raw raw) :
    exactPair? (x ++ '"' :: (raw ++ ['"'])) = none := by
  rw [Option.eq_none_iff_forall_ne_some]
  intro m hm
  simp only [exactPair?, Option.bind_eq_bind, Option.bind_eq_some_iff] at hm
  obtain ⟨⟨left, right⟩, hcut, -, -, -, -, ⟨value, rest⟩, hq, -⟩ := hm
  have hnot : ∀ c ∈ x ++ ['"'], '<' ≠ c := by
    rintro c hc rfl
    simp [hx] at hc
  have htext : x ++ '"' :: (raw ++ ['"']) = (x ++ ['"']) ++ (raw ++ ['"']) := by simp
  rw [htext, operator_eq, cut?_append_of_forall hnot, ← operator_eq] at hcut
  obtain ⟨⟨front, tail⟩, hc, he⟩ := Option.map_eq_some_iff.1 hcut
  obtain ⟨-, rfl⟩ := Prod.mk.inj he
  have heq : raw ++ ['"'] = (front ++ "<:".toList) ++ '>' :: tail := by
    rw [eq_of_cut? hc, show "<:>".toList = "<:".toList ++ ['>'] by decide]
    simp
  rw [quoted?_eq_none_of_raw h heq] at hq
  cases hq

theorem exactPair?_pair (g₁ g₂ : Gap) {name raw value : Text} (hn : IsToken name) (hne : raw ≠ [])
    (hd : Denotes raw value) :
    exactPair? ('"' :: (name ++ '"' :: (g₁.1 ++ ("<:>".toList ++
      (g₂.1 ++ '"' :: (raw ++ ['"'])))))) = some (.exact name value) := by
  have hleft : ∀ c ∈ '"' :: (name ++ '"' :: g₁.1), '<' ≠ c := by
    rintro c hc rfl
    have hg : '<' ∉ g₁.1 := not_mem_of_all g₁.2 (by decide)
    simp [hn.not_mem (c := '<') (by decide), hg] at hc
  have htext : '"' :: (name ++ '"' :: (g₁.1 ++ ("<:>".toList ++ (g₂.1 ++ '"' :: (raw ++ ['"']))))) =
      ('"' :: (name ++ '"' :: g₁.1)) ++ ("<:>".toList ++ (g₂.1 ++ '"' :: (raw ++ ['"']))) := by simp
  have hcut : cut? "<:>".toList ('"' :: (name ++ '"' :: (g₁.1 ++ ("<:>".toList ++
      (g₂.1 ++ '"' :: (raw ++ ['"'])))))) =
        some ('"' :: (name ++ '"' :: g₁.1), g₂.1 ++ '"' :: (raw ++ ['"'])) := by
    rw [htext, operator_eq, cut?_append_of_forall hleft, cut?_append_self (List.cons_ne_nil _ _)]
    simp
  have hend : trimEnd ('"' :: (name ++ '"' :: g₁.1)) = '"' :: (name ++ ['"']) := by
    have h := trimEnd_gap g₁ (trimEnd_append_singleton (c := '"') (by decide) ('"' :: name))
    simpa using h
  have hbefore : before? ['"'] ('"' :: (name ++ ['"'])) = some ('"' :: name) :=
    before?_eq_some_iff.2 rfl
  have hlast : cutLast? '"' ('"' :: name) = some ([], name) :=
    cutLast?_eq_some_iff.2 ⟨rfl, hn.not_mem (by decide)⟩
  have hstart : trimStart (g₂.1 ++ '"' :: (raw ++ ['"'])) = '"' :: (raw ++ ['"']) :=
    trimStart_gap g₂ (trimStart_cons_of_not_blank (by decide) _)
  have hquoted : quoted? ('"' :: (raw ++ ['"'])) = some (raw, []) := hd.isRaw.quoted? []
  rw [exactPair?, hcut]
  simp only [Option.bind_eq_bind, Option.bind_some, hend, hbefore, hlast, hstart, hquoted]
  simp [hn.ne_nil, hne, hn.denotes.eq, hd.eq]

/-! ## Absent headers -/

theorem absentArgument?_of_space (g : Space) {r : Text} (hr : trimStart r = r) :
    absentArgument? ("matchHeaderAbsent".toList ++ (g.1 ++ r)) = some r := by
  rw [absentArgument?, keyword?_append (by decide) (by decide)
    (endsHere_space (fun _ => isIdentChar_of_isBlank) g r), Option.bind_some, blanks?_space g hr]

theorem not_mem_call (g : Space) : '<' ∉ "matchHeaderAbsent".toList ++ g.1 := by
  have hg : '<' ∉ g.1 := not_mem_of_all g.2.2 (by decide)
  simpa using hg

/-! ## Reading a matcher -/

theorem Written.trim (h : Written s raws m) : Text.trim s = s := by
  have hstart {g r : Text} : Text.trimStart ("matchHeaderAbsent".toList ++ (g ++ r)) =
      "matchHeaderAbsent".toList ++ (g ++ r) := trimStart_word (by decide) (by decide) _
  cases h with
  | @exact g₁ g₂ name raw _ _ _ _ =>
    have hs : '"' :: (name ++ '"' :: (g₁.1 ++ ("<:>".toList ++ (g₂.1 ++ '"' :: (raw ++ ['"']))))) =
        '"' :: ((name ++ '"' :: (g₁.1 ++ ("<:>".toList ++ (g₂.1 ++ '"' :: raw)))) ++ ['"']) := by
      simp
    rw [hs, trim_cons_append_singleton (by decide) (by decide)]
  | @absent g raw _ _ _ =>
    have hs : "matchHeaderAbsent".toList ++ (g.1 ++ '"' :: (raw ++ ['"'])) =
        ("matchHeaderAbsent".toList ++ (g.1 ++ '"' :: raw)) ++ ['"'] := by simp
    rw [Text.trim, hstart, hs, trimEnd_append_singleton (by decide)]
  | absentContentType g =>
    have hend : trimEnd "hContentType".toList = "hContentType".toList := by decide
    rw [Text.trim, hstart, ← List.append_assoc, trimEnd_append, hend, if_neg (by decide)]
  | @contentType p hp =>
    have hall : ∀ p ∈ contentTypes, Text.trim p.1 = p.1 := by decide
    exact hall p hp

/-- **A written matcher is read as what it is.** -/
theorem parse?_of_written (h : Written s raws m) : parse? s = some m := by
  have htrim := h.trim
  have hread : parse? s = readers.findSome? (· s) := by rw [parse?, htrim]
  simp only [readers, List.findSome?_cons] at hread
  cases h with
  | exact g₁ g₂ hn hne hd => rw [hread, exactPair?_pair g₁ g₂ hn hne hd]
  | @absent g raw name hne hd =>
    have harg : absentArgument? ("matchHeaderAbsent".toList ++ (g.1 ++ '"' :: (raw ++ ['"']))) =
        some ('"' :: (raw ++ ['"'])) :=
      absentArgument?_of_space g (trimStart_cons_of_not_blank (by decide) _)
    have hpair := exactPair?_eq_none_of_literal (not_mem_call g) hd.isRaw
    rw [List.append_assoc] at hpair
    have hcontent : word? "hContentType".toList ('"' :: (raw ++ ['"'])) = none :=
      word?_eq_none (by decide) (List.cons_ne_nil _ _).symm
    rw [hread, hpair, absentContentType?, absentNamed?, harg]
    simp only [Option.bind_eq_bind, Option.bind_some, hcontent, Option.bind_none,
      nonemptyQuoted?_literal hd.isRaw hne [], hd.eq]
    rfl
  | absentContentType g =>
    have harg := absentArgument?_of_space g (r := "hContentType".toList) (by decide)
    have hword : word? "hContentType".toList "hContentType".toList = some [] := by decide
    have hpair :
        exactPair? ("matchHeaderAbsent".toList ++ (g.1 ++ "hContentType".toList)) = none := by
      refine exactPair?_eq_none_of_not_mem ?_
      rw [← List.append_assoc, List.mem_append, not_or]
      exact ⟨not_mem_call g, by decide⟩
    rw [hread, hpair, absentContentType?, harg]
    simp only [Option.bind_eq_bind, Option.bind_some, hword]
    rfl
  | @contentType p hp =>
    have hall : ∀ p ∈ contentTypes,
        parse? p.1 = some (.exact HeaderMatcher.contentType p.2) := by decide +kernel
    exact hall p hp

/-! ## Brackets -/

theorem Written.ne_nil (h : Written s raws m) : s ≠ [] := by
  cases h with
  | exact => exact List.cons_ne_nil _ _
  | absent => exact List.cons_ne_nil _ _
  | absentContentType => exact List.cons_ne_nil _ _
  | @contentType p hp =>
    have hall : ∀ p ∈ contentTypes, p.1 ≠ [] := by decide
    exact hall p hp

/-- **A written matcher is well nested**, and it has no comma but in its literals. -/
theorem Written.nested (h : Written s raws m) : Nested (some ',') s := by
  have hoperator : Nested (some ',') "<:>".toList :=
    .of_class (p := fun c => c == '<' || c == ':' || c == '>') (by decide) (by decide)
  have hcall (g : Space) : Nested (some ',') ("matchHeaderAbsent".toList ++ g.1) :=
    (nested_word (by decide)).append (nested_blank g.2.2)
  cases h with
  | exact g₁ g₂ hn _ hd =>
    exact .literal hn.denotes.isRaw ((nested_blank g₁.2).append
      (hoperator.append ((nested_blank g₂.2).append (.literal hd.isRaw .nil))))
  | absent g _ hd =>
    rw [← List.append_assoc]
    exact (hcall g).append (.literal hd.isRaw .nil)
  | absentContentType g =>
    rw [← List.append_assoc]
    exact (hcall g).append (nested_word (by decide))
  | @contentType p hp =>
    have hall : ∀ p ∈ contentTypes, p.1.all isIdentChar = true := by decide
    exact nested_word (hall p hp)

/-! ## Lists -/

/-- A matcher with white space around it. -/
inductive Item : Text → List Text → HeaderMatcher → Prop
  | mk (g₁ g₂ : Gap) {s : Text} {raws : List Text} {m : HeaderMatcher} : Written s raws m →
    Item (g₁.1 ++ (s ++ g₂.1)) raws m

/-- Matchers with commas between them. -/
inductive Items : Text → List Text → List HeaderMatcher → Prop
  | last {s : Text} {raws : List Text} {m : HeaderMatcher} : Item s raws m → Items s raws [m]
  | cons {s t : Text} {raws raws' : List Text} {m : HeaderMatcher} {ms : List HeaderMatcher} :
    Item s raws m → Items t raws' ms → Items (s ++ ',' :: t) (raws ++ raws') (m :: ms)

theorem Item.parse? (h : Item s raws m) : HeaderMatcher.parse? s = some m := by
  cases h with
  | mk g₁ g₂ hw =>
    rw [HeaderMatcher.parse?, trim_gaps g₁ g₂ hw.trim, ← parse?_of_written hw,
      HeaderMatcher.parse?, hw.trim]

theorem Item.nested (h : Item s raws m) : Nested (some ',') s := by
  cases h with
  | mk g₁ g₂ hw => exact (nested_blank g₁.2).append (hw.nested.append (nested_blank g₂.2))

theorem Item.allBlank (h : Item s raws m) : Text.allBlank s = false := by
  cases h with
  | @mk g₁ g₂ s _ _ hw =>
    have hs : Text.trim (g₁.1 ++ (s ++ g₂.1)) ≠ [] := by
      rw [trim_gaps g₁ g₂ hw.trim]
      exact hw.ne_nil
    rw [Bool.eq_false_iff]
    intro hb
    exact hs (by rw [Text.trim, trimStart_eq_nil_iff.2 hb]; rfl)

/-- Matchers with commas between them are parts that are read one by one. -/
theorem Items.exists_parts {ms : List HeaderMatcher} (h : Items s raws ms) : ∃ p ps,
    s = [','].intercalate (p :: ps) ∧ (∀ q ∈ p :: ps, Nested (some ',') q ∧
      Text.allBlank q = false) ∧ (p :: ps).mapM HeaderMatcher.parse? = some ms := by
  induction h with
  | @last s _ _ hi =>
    exact ⟨s, [], by simp, by simpa using ⟨hi.nested, hi.allBlank⟩, by simp [hi.parse?]⟩
  | @cons s _ _ _ _ _ hi _ ih =>
    obtain ⟨p, ps, rfl, hparts, hread⟩ := ih
    refine ⟨s, p :: ps, by simp [List.intercalate_cons_cons], ?_, ?_⟩
    · exact List.forall_mem_cons.2 ⟨⟨hi.nested, hi.allBlank⟩, hparts⟩
    · rw [List.mapM_cons, hi.parse?, hread]
      rfl

theorem Items.nested {ms : List HeaderMatcher} (h : Items s raws ms) : Nested none s := by
  induction h with
  | last hi => exact hi.nested.weaken
  | cons hi _ ih => exact hi.nested.weaken.append (.char (by decide) (by decide) (by decide) ih)

end HeaderMatcher

namespace HeaderMatchers

open HeaderMatcher

/-- Matchers written as a list. -/
inductive Listed : Text → List Text → List HeaderMatcher → Prop
  | empty (g : Gap) : Listed ('[' :: (g.1 ++ [']'])) [] []
  | items {s : Text} {raws : List Text} {ms : List HeaderMatcher} : Items s raws ms →
    Listed ('[' :: (s ++ [']'])) raws ms

variable {list : Text} {raws : List Text} {ms : List HeaderMatcher}

theorem Listed.exists_eq (h : Listed list raws ms) :
    ∃ inner, list = '[' :: (inner ++ [']']) ∧ Nested none inner := by
  cases h with
  | empty g => exact ⟨g.1, rfl, (nested_blank g.2).weaken⟩
  | items h => exact ⟨_, rfl, h.nested⟩

theorem parse?_brackets (inner : Text) : parse? ('[' :: (inner ++ [']'])) =
    ((topLevel ',' inner).mapM HeaderMatcher.parse?).map ofList := by
  rw [parse?, trim_cons_append_singleton (by decide) (by decide)]
  simp only [before?_eq_some_iff.2 (rfl : inner ++ [']'] = inner ++ [']']), Option.map_eq_bind]
  rfl

/-- **A list is read as its matchers**, in their order. -/
theorem parse?_of_listed (h : Listed list raws ms) : parse? list = some (ofList ms) := by
  cases h with
  | empty g =>
    rw [parse?_brackets, topLevel_of_allBlank (by decide) g.2]
    rfl
  | items h =>
    obtain ⟨p, ps, rfl, hparts, hread⟩ := h.exists_parts
    have htop : topLevel ',' ([','].intercalate (p :: ps)) = p :: ps :=
      topLevel_intercalate (by decide) (by decide)
        (fun q hq => ((hparts q hq).1.balanced (by decide) (by decide)).isPart)
        fun q hq => (hparts q (List.mem_of_getLast? hq)).2
    rw [parse?_brackets, htop, hread, Option.map_some]

theorem Listed.contain_eq_nil (h : Listed list raws ms) : (ofList ms).contain = [] := by
  have hitem {s : Text} {raws : List Text} {m : HeaderMatcher} (h : Item s raws m) :
      (ofList [m]).contain = [] := by
    cases h with
    | mk _ _ hw => cases hw <;> rfl
  cases h with
  | empty => rfl
  | items h =>
    induction h with
    | last hi => exact hitem hi
    | @cons _ _ _ _ m ms hi _ ih =>
      have hcons : (ofList (m :: ms)).contain = (ofList [m]).contain ++ (ofList ms).contain := by
        rw [ofList, ofList, ofList, ← List.filterMap_append, List.singleton_append]
      rw [hcons, hitem hi, ih, List.append_nil]

end HeaderMatchers

end SpecHarvest
