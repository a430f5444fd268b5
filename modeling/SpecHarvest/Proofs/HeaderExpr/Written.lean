import SpecHarvest.Proofs.HeaderExpr.Named
import SpecHarvest.Proofs.Json.Value
import SpecHarvest.Proofs.Source.Nested
import SpecHarvest.Proofs.Source.Reader

/-!
# Header expressions as they are written

* `Written s e`: how tuples and calls of helpers are written, white space between their parts
  included. `parse?_of_written`: such a text is read as that expression.
* `Delimited s es`: expressions written as a bracketed list, or one in parentheses.
  `resolveList?_list`: a list has the headers of its elements, in their order.
-/

namespace SpecHarvest.HeaderExpr

open Text Source Http

/-! ## Forms -/

/-- Numbers, each after white space. -/
inductive Arguments : List Nat → Text → Prop
  | nil : Arguments [] []
  | cons (g : Space) {ds args : Text} {k : Nat} {ks : List Nat} : Digits ds k →
    Arguments ks args → Arguments (k :: ks) (g.1 ++ (ds ++ args))

/-- A helper applied to a string literal. -/
inductive StringCall (helper value : Text) : Text → Prop
  | mk (g : Space) {raw : Text} : raw ≠ [] → Denotes raw value →
    StringCall helper value (helper ++ (g.1 ++ '"' :: (raw ++ ['"'])))

/-- A helper applied to a range, which stands after `$` or in parentheses. -/
inductive RangeCall (helper constructor : Text) (ks : List Nat) : Text → Prop
  | applied (g : Space) (g₁ : Gap) {args : Text} : Arguments ks args →
    RangeCall helper constructor ks (helper ++ (g.1 ++ '$' :: (g₁.1 ++ (constructor ++ args))))
  | parenthesised (g : Space) (g₁ g₂ : Gap) {args : Text} : Arguments ks args →
    RangeCall helper constructor ks
      (helper ++ (g.1 ++ '(' :: (g₁.1 ++ (constructor ++ (args ++ (g₂.1 ++ [')']))))))

/-- How an expression is written. -/
inductive Written : Text → HeaderExpr → Prop
  | tuple (g₁ g₂ g₃ g₄ : Gap) {n v name value : Text} : n ≠ [] → v ≠ [] → Denotes n name →
    Denotes v value → Written
      ('(' :: (g₁.1 ++ '"' :: (n ++ '"' :: (g₂.1 ++ ',' :: (g₃.1 ++ '"' ::
        (v ++ '"' :: (g₄.1 ++ [')'])))))))
      (.tuple name value)
  | accept {s mime : Text} : StringCall "acceptHdrs".toList mime s → Written s (.accept mime)
  | bearer {s token : Text} : StringCall "authHeaderJWT".toList token s → Written s (.bearer token)
  | plan : Written "planHdr".toList .plan
  | rangeFromTo {s : Text} {first last : Nat} :
    RangeCall "rangeHdrs".toList "ByteRangeFromTo".toList [first, last] s →
      Written s (.rangeFromTo first last)
  | rangeFrom {s : Text} {first : Nat} :
    RangeCall "rangeHdrs".toList "ByteRangeFrom".toList [first] s → Written s (.rangeFrom first)
  | rangeWithCount {s : Text} {first last : Nat} :
    RangeCall "rangeHdrsWithCount".toList "ByteRangeFromTo".toList [first, last] s →
      Written s (.rangeWithCount first last)

/-! ## Calls of helpers -/

variable {helper constructor : Text} {ks : List Nat} {s : Text} {e : HeaderExpr}

theorem Arguments.endsHere {args : Text} (h : Arguments ks args) {p : Char → Bool}
    (hp : ∀ c, isBlank c = true → p c = false) {rest : Text} (hr : Text.endsHere p rest = true) :
    Text.endsHere p (args ++ rest) = true := by
  cases h with
  | nil => exact hr
  | cons g _ _ => rw [List.append_assoc]; exact endsHere_space hp g _

theorem naturals?_arguments {args : Text} (h : Arguments ks args) {rest : Text}
    (hr : Text.endsHere Char.isDigit rest = true) :
    naturals? ks.length (args ++ rest) = some (ks, rest) := by
  induction h with
  | nil => rfl
  | @cons g ds args k ks hds hargs ih =>
    have hword := trimStart_word hds.ne_nil hds.all_isIdentChar (args ++ rest)
    have hnat := natural?_digits hds (hargs.endsHere (fun _ => isDigit_of_isBlank) hr)
    rw [List.append_assoc, List.append_assoc]
    simp [naturals?, blanks?_space g hword, hnat, ih]

theorem atEnd_nil : atEnd [] = some () := rfl

theorem stringArgument?_of_call {value : Text} (h : StringCall helper value s) :
    stringArgument? helper s = some value := by
  cases h with
  | @mk g raw hne hd =>
    have hg := blanks?_space g (s := '"' :: (raw ++ ['"']))
      (trimStart_cons_of_not_blank (by decide) _)
    simp [stringArgument?, word?_append_space, hg, nonemptyQuoted?_literal hd.isRaw hne [],
      atEnd_nil, hd.eq]

/-- A call of a range helper, read up to the constructor. -/
theorem rangeArguments?_opened (other : Text) (n : Nat) (g : Space) (g₁ : Gap) {mark : Char}
    (hm : mark = '$' ∨ mark = '(') {r : Text} (hr : trimStart r = r) :
    rangeArguments? helper other n (helper ++ (g.1 ++ mark :: (g₁.1 ++ r))) =
      (word? other r).bind fun s => (naturals? n s).bind fun q =>
        match after? [')'] (trimStart q.2) with
        | some s => (atEnd s).bind fun _ => some q.1
        | none => if mark = '(' then none else (atEnd q.2).bind fun _ => some q.1 := by
  have hblank : isBlank mark = false := by rcases hm with rfl | rfl <;> decide
  have hg := blanks?_space g (trimStart_cons_of_not_blank hblank (g₁.1 ++ r))
  simp only [rangeArguments?, word?_append_space, hg, Option.bind_eq_bind, Option.bind_some]
  rcases hm with rfl | rfl
  · simp only [trimStart_gap g₁ hr]
    rfl
  · simp only [trimStart_gap g₁ hr]
    rfl

theorem rangeArguments?_of_call (hne : constructor ≠ [])
    (hc : constructor.all isIdentChar = true) (h : RangeCall helper constructor ks s) :
    rangeArguments? helper constructor ks.length s = some ks := by
  cases h with
  | @applied g g₁ args hargs =>
    have hcw := word?_append constructor
      (hargs.endsHere (fun _ => isIdentChar_of_isBlank) (show Text.endsHere _ [] = true from rfl))
    have hks := naturals?_arguments hargs (show Text.endsHere Char.isDigit [] = true from rfl)
    rw [List.append_nil] at hcw hks
    rw [rangeArguments?_opened constructor ks.length g g₁ (.inl rfl) (trimStart_word hne hc args)]
    simp [hcw, hks, show trimStart [] = [] from rfl, after?, atEnd_nil]
  | @parenthesised g g₁ g₂ args hargs =>
    have hcw := word?_append constructor (hargs.endsHere (fun _ => isIdentChar_of_isBlank)
      (endsHere_gap (fun _ => isIdentChar_of_isBlank) g₂ (c := ')') (by decide) []))
    have hks := naturals?_arguments hargs
      (endsHere_gap (fun _ => isDigit_of_isBlank) g₂ (c := ')') (by decide) [])
    have hclose : trimStart (g₂.1 ++ [')']) = [')'] :=
      trimStart_gap g₂ (trimStart_cons_of_not_blank (by decide) [])
    rw [rangeArguments?_opened constructor ks.length g g₁ (.inr rfl) (trimStart_word hne hc _)]
    simp [hcw, hks, hclose, after?, atEnd_nil]

/-! ## The word at the front -/

/-- The word that an expression is written with. -/
def word : HeaderExpr → Text
  | .tuple _ _ => []
  | .accept _ => "acceptHdrs".toList
  | .bearer _ => "authHeaderJWT".toList
  | .plan => "planHdr".toList
  | .rangeFromTo _ _ | .rangeFrom _ => "rangeHdrs".toList
  | .rangeWithCount _ _ => "rangeHdrsWithCount".toList
  | .binding name => name

theorem Written.all_word (h : Written s e) : e.word.all isIdentChar = true := by
  cases h <;> rfl

theorem StringCall.exists_eq {value : Text} (h : StringCall helper value s) :
    ∃ (g : Space) (r : Text), s = helper ++ (g.1 ++ r) := by
  cases h with
  | mk g _ _ => exact ⟨g, _, rfl⟩

theorem RangeCall.exists_eq (h : RangeCall helper constructor ks s) :
    ∃ (g : Space) (r : Text), s = helper ++ (g.1 ++ r) := by
  cases h with
  | applied g _ _ => exact ⟨g, _, rfl⟩
  | parenthesised g _ _ _ => exact ⟨g, _, rfl⟩

theorem Written.exists_eq (h : Written s e) : ∃ r, s = e.word ++ r ∧
    endsHere isIdentChar r = true ∧ (e.word = [] → Text.trimStart r = r) := by
  have call {w : Text} (hne : w ≠ []) (h : ∃ (g : Space) (r : Text), s = w ++ (g.1 ++ r)) :
      ∃ r, s = w ++ r ∧ endsHere isIdentChar r = true ∧ (w = [] → Text.trimStart r = r) := by
    obtain ⟨g, r, rfl⟩ := h
    exact ⟨_, rfl, endsHere_space (fun _ => isIdentChar_of_isBlank) g r, fun h => absurd h hne⟩
  cases h with
  | tuple => exact ⟨_, rfl, rfl, fun _ => trimStart_cons_of_not_blank (by decide) _⟩
  | accept h => exact call (List.cons_ne_nil _ _) h.exists_eq
  | bearer h => exact call (List.cons_ne_nil _ _) h.exists_eq
  | plan => exact ⟨[], rfl, rfl, fun _ => rfl⟩
  | rangeFromTo h => exact call (List.cons_ne_nil _ _) h.exists_eq
  | rangeFrom h => exact call (List.cons_ne_nil _ _) h.exists_eq
  | rangeWithCount h => exact call (List.cons_ne_nil _ _) h.exists_eq

theorem Written.leadingWord (h : Written s e) : leadingWord s = e.word := by
  obtain ⟨r, rfl, hr, -⟩ := h.exists_eq
  exact leadingWord_append h.all_word hr

/-! ## White space at the ends -/

theorem Arguments.trimEnd {args : Text} (h : Arguments ks args) : Text.trimEnd args = args := by
  induction h with
  | nil => rfl
  | @cons g ds args k ks hds _ ih =>
    have htail : Text.trimEnd (ds ++ args) = ds ++ args := by
      rw [trimEnd_append_of_forall fun c hc =>
        isBlank_of_isIdentChar (List.all_eq_true.1 hds.all_isIdentChar c hc), ih]
    have hne : ds ++ args ≠ [] := by simp [hds.ne_nil]
    rw [trimEnd_append, htail, if_neg hne]

theorem StringCall.trimEnd {value : Text} (h : StringCall helper value s) :
    Text.trimEnd s = s := by
  cases h with
  | @mk g raw _ _ =>
    have hs : helper ++ (g.1 ++ '"' :: (raw ++ ['"'])) = (helper ++ (g.1 ++ '"' :: raw)) ++ ['"'] := by
      simp
    rw [hs, trimEnd_append_singleton (by decide)]

theorem RangeCall.trimEnd (hne : constructor ≠ [])
    (hc : constructor.all isIdentChar = true) (h : RangeCall helper constructor ks s) :
    Text.trimEnd s = s := by
  cases h with
  | @applied g g₁ args hargs =>
    have htail : Text.trimEnd (constructor ++ args) = constructor ++ args := by
      rw [trimEnd_append_of_forall fun c h => isBlank_of_isIdentChar (List.all_eq_true.1 hc c h),
        hargs.trimEnd]
    have hs : helper ++ (g.1 ++ '$' :: (g₁.1 ++ (constructor ++ args))) =
        (helper ++ (g.1 ++ '$' :: g₁.1)) ++ (constructor ++ args) := by simp
    rw [hs, trimEnd_append, htail, if_neg (by simp [hne])]
  | @parenthesised g g₁ g₂ args _ =>
    have hs : helper ++ (g.1 ++ '(' :: (g₁.1 ++ (constructor ++ (args ++ (g₂.1 ++ [')']))))) =
        (helper ++ (g.1 ++ '(' :: (g₁.1 ++ (constructor ++ (args ++ g₂.1))))) ++ [')'] := by simp
    rw [hs, trimEnd_append_singleton (by decide)]

theorem Written.trimEnd (h : Written s e) : Text.trimEnd s = s := by
  cases h with
  | @tuple g₁ g₂ g₃ g₄ n v _ _ _ _ _ _ =>
    have hs : '(' :: (g₁.1 ++ '"' :: (n ++ '"' :: (g₂.1 ++ ',' :: (g₃.1 ++ '"' ::
        (v ++ '"' :: (g₄.1 ++ [')'])))))) = ('(' :: (g₁.1 ++ '"' :: (n ++ '"' :: (g₂.1 ++ ',' ::
          (g₃.1 ++ '"' :: (v ++ '"' :: g₄.1)))))) ++ [')'] := by simp
    rw [hs, trimEnd_append_singleton (by decide)]
  | accept h => exact h.trimEnd
  | bearer h => exact h.trimEnd
  | plan => decide
  | rangeFromTo h => exact h.trimEnd (by decide) (by decide)
  | rangeFrom h => exact h.trimEnd (by decide) (by decide)
  | rangeWithCount h => exact h.trimEnd (by decide) (by decide)

theorem Written.trimStart (h : Written s e) : Text.trimStart s = s := by
  obtain ⟨r, rfl, -, hr⟩ := h.exists_eq
  by_cases hne : e.word = []
  · rw [hne, List.nil_append, hr hne]
  · exact trimStart_word hne h.all_word r

theorem Written.trim (h : Written s e) : Text.trim s = s := by
  rw [Text.trim, h.trimStart, h.trimEnd]

/-! ## Reading an expression -/

theorem tuple?_eq_none (h : leadingWord s ≠ []) : tuple? s = none := by
  cases s with
  | nil => rfl
  | cons c s =>
    have hc : '(' ≠ c := by
      rintro rfl
      exact h rfl
    simp [tuple?, after?, hc]

theorem stringArgument?_eq_none (hw : helper.all isIdentChar = true)
    (h : leadingWord s ≠ helper) : stringArgument? helper s = none := by
  simp [stringArgument?, word?_eq_none hw h]

theorem accept?_eq_none (h : leadingWord s ≠ "acceptHdrs".toList) : accept? s = none := by
  rw [accept?, stringArgument?_eq_none (by decide) h, Option.map_none]

theorem bearer?_eq_none (h : leadingWord s ≠ "authHeaderJWT".toList) : bearer? s = none := by
  rw [bearer?, stringArgument?_eq_none (by decide) h, Option.map_none]

theorem plan?_eq_none (h : leadingWord s ≠ "planHdr".toList) : plan? s = none := by
  refine if_neg ?_
  rintro rfl
  exact h rfl

theorem rangeArguments?_eq_none (hw : helper.all isIdentChar = true)
    (h : leadingWord s ≠ helper) (n : Nat) : rangeArguments? helper constructor n s = none := by
  simp [rangeArguments?, word?_eq_none hw h]

theorem rangeFromTo?_eq_none (h : leadingWord s ≠ "rangeHdrs".toList) : rangeFromTo? s = none := by
  rw [rangeFromTo?, rangeArguments?_eq_none (by decide) h]

theorem rangeFrom?_eq_none (h : leadingWord s ≠ "rangeHdrs".toList) : rangeFrom? s = none := by
  rw [rangeFrom?, rangeArguments?_eq_none (by decide) h]

/-- A range helper does not take another constructor. -/
theorem rangeArguments?_eq_none_of_constructor {other : Text} (hne : constructor ≠ [])
    (hc : constructor.all isIdentChar = true) (ho : other.all isIdentChar = true)
    (h : RangeCall helper constructor ks s) (hother : constructor ≠ other) (n : Nat) :
    rangeArguments? helper other n s = none := by
  have hread {r : Text} (hr : Text.endsHere isIdentChar r = true) :
      word? other (constructor ++ r) = none :=
    word?_eq_none ho (by rwa [leadingWord_append hc hr])
  cases h with
  | @applied g g₁ args hargs =>
    have hend := hargs.endsHere (fun _ => isIdentChar_of_isBlank)
      (show Text.endsHere _ [] = true from rfl)
    rw [List.append_nil] at hend
    rw [rangeArguments?_opened other n g g₁ (.inl rfl) (trimStart_word hne hc args), hread hend,
      Option.bind_none]
  | @parenthesised g g₁ g₂ args hargs =>
    have hend := hargs.endsHere (fun _ => isIdentChar_of_isBlank)
      (endsHere_gap (fun _ => isIdentChar_of_isBlank) g₂ (c := ')') (by decide) [])
    rw [rangeArguments?_opened other n g g₁ (.inr rfl) (trimStart_word hne hc _), hread hend,
      Option.bind_none]

theorem tuple?_of_written {name value : Text} (h : Written s (.tuple name value)) :
    tuple? s = some (.tuple name value) := by
  cases h with
  | @tuple g₁ g₂ g₃ g₄ n v _ _ hn hv hdn hdv =>
    have hquote (g : Gap) (r : Text) : trimStart (g.1 ++ '"' :: r) = '"' :: r :=
      trimStart_gap g (trimStart_cons_of_not_blank (by decide) r)
    have hcomma (r : Text) : trimStart (g₂.1 ++ ',' :: r) = ',' :: r :=
      trimStart_gap g₂ (trimStart_cons_of_not_blank (by decide) r)
    have hclose : trimStart (g₄.1 ++ [')']) = [')'] :=
      trimStart_gap g₄ (trimStart_cons_of_not_blank (by decide) [])
    simp [tuple?, after?, hquote, hcomma, hclose, nonemptyQuoted?_literal hdn.isRaw hn,
      nonemptyQuoted?_literal hdv.isRaw hv, atEnd_nil, hdn.eq, hdv.eq]

/-- At the name of a range helper only the readers of ranges are left, and that of names. -/
theorem parse?_of_range (ht : Text.trim s = s) (hw : leadingWord s = "rangeHdrs".toList ∨
    leadingWord s = "rangeHdrsWithCount".toList) :
    parse? s = [rangeFromTo?, rangeFrom?, rangeWithCount?, binding?].findSome? (· s) := by
  have hne {w : Text} (h₁ : "rangeHdrs".toList ≠ w) (h₂ : "rangeHdrsWithCount".toList ≠ w) :
      leadingWord s ≠ w := by
    rcases hw with hw | hw <;> rw [hw] <;> assumption
  rw [parse?, ht]
  simp only [readers, List.findSome?_cons]
  rw [tuple?_eq_none (hne (by decide) (by decide)), accept?_eq_none (hne (by decide) (by decide)),
    bearer?_eq_none (hne (by decide) (by decide)), plan?_eq_none (hne (by decide) (by decide))]

/-- **A written expression is read as what it is**: the readers before its own look for another
word, or for another constructor. -/
theorem parse?_of_written (h : Written s e) : parse? s = some e := by
  have htrim := h.trim
  have hread : parse? s = readers.findSome? (· s) := by rw [parse?, htrim]
  simp only [readers, List.findSome?_cons] at hread
  cases h with
  | tuple g₁ g₂ g₃ g₄ hn hv hdn hdv =>
    rw [hread, tuple?_of_written (.tuple g₁ g₂ g₃ g₄ hn hv hdn hdv)]
  | accept hc =>
    have hw : leadingWord s = "acceptHdrs".toList := (Written.accept hc).leadingWord
    rw [hread, tuple?_eq_none (ne_of_eq_of_ne hw (by decide)), accept?,
      stringArgument?_of_call hc]
    rfl
  | bearer hc =>
    have hw : leadingWord s = "authHeaderJWT".toList := (Written.bearer hc).leadingWord
    rw [hread, tuple?_eq_none (ne_of_eq_of_ne hw (by decide)),
      accept?_eq_none (ne_of_eq_of_ne hw (by decide)), bearer?, stringArgument?_of_call hc]
    rfl
  | plan =>
    have hw : leadingWord "planHdr".toList = "planHdr".toList := Written.plan.leadingWord
    rw [hread, tuple?_eq_none (ne_of_eq_of_ne hw (by decide)),
      accept?_eq_none (ne_of_eq_of_ne hw (by decide)),
      bearer?_eq_none (ne_of_eq_of_ne hw (by decide)), plan?, if_pos rfl]
  | rangeFromTo hc =>
    have hw : leadingWord s = "rangeHdrs".toList := (Written.rangeFromTo hc).leadingWord
    have hargs := rangeArguments?_of_call (by decide) (by decide) hc
    rw [List.length_cons, List.length_singleton] at hargs
    rw [parse?_of_range htrim (.inl hw), List.findSome?_cons, rangeFromTo?, hargs]
  | rangeFrom hc =>
    have hw : leadingWord s = "rangeHdrs".toList := (Written.rangeFrom hc).leadingWord
    have hargs := rangeArguments?_of_call (by decide) (by decide) hc
    have hother : rangeFromTo? s = none := by
      rw [rangeFromTo?, rangeArguments?_eq_none_of_constructor (by decide) (by decide) (by decide) hc
        (by decide)]
    rw [List.length_singleton] at hargs
    rw [parse?_of_range htrim (.inl hw), List.findSome?_cons, hother, List.findSome?_cons,
      rangeFrom?, hargs]
  | rangeWithCount hc =>
    have hw : leadingWord s = "rangeHdrsWithCount".toList := (Written.rangeWithCount hc).leadingWord
    have hargs := rangeArguments?_of_call (by decide) (by decide) hc
    have hne : leadingWord s ≠ "rangeHdrs".toList := ne_of_eq_of_ne hw (by decide)
    rw [List.length_cons, List.length_singleton] at hargs
    rw [parse?_of_range htrim (.inr hw), List.findSome?_cons, rangeFromTo?_eq_none hne,
      List.findSome?_cons, rangeFrom?_eq_none hne, List.findSome?_cons, rangeWithCount?, hargs]

/-! ## Brackets -/

theorem Arguments.nested {args : Text} (h : Arguments ks args) : Nested (some ',') args := by
  induction h with
  | nil => exact .nil
  | cons g hds _ ih =>
    exact (nested_blank g.2.2).append
      ((nested_word hds.all_isIdentChar).append ih)

theorem StringCall.nested {value : Text} (hw : helper.all isIdentChar = true)
    (h : StringCall helper value s) : Nested (some ',') s := by
  cases h with
  | mk g _ hd =>
    exact (nested_word hw).append ((nested_blank g.2.2).append (.literal hd.isRaw .nil))

theorem RangeCall.nested (hw : helper.all isIdentChar = true)
    (hc : constructor.all isIdentChar = true) (h : RangeCall helper constructor ks s) :
    Nested (some ',') s := by
  cases h with
  | applied g g₁ hargs =>
    exact (nested_word hw).append ((nested_blank g.2.2).append (.char (by decide) (by decide)
      (by decide) ((nested_blank g₁.2).append ((nested_word hc).append hargs.nested))))
  | @parenthesised g g₁ g₂ args hargs =>
    have hs : helper ++ (g.1 ++ '(' :: (g₁.1 ++ (constructor ++ (args ++ (g₂.1 ++ [')']))))) =
        helper ++ (g.1 ++ '(' :: ((g₁.1 ++ (constructor ++ (args ++ g₂.1))) ++ [')'])) := by simp
    have hinner := (nested_blank g₁.2).append
      ((nested_word hc).append (hargs.nested.append (nested_blank g₂.2)))
    rw [hs]
    exact (nested_word hw).append ((nested_blank g.2.2).append
      (.bracketed (b := ('(', ')')) (by decide) hinner.weaken .nil))

/-- **A written expression is well nested**, and its commas are within brackets. -/
theorem Written.nested (h : Written s e) : Nested (some ',') s := by
  cases h with
  | @tuple g₁ g₂ g₃ g₄ n v _ _ _ _ hn hv =>
    have hs : '(' :: (g₁.1 ++ '"' :: (n ++ '"' :: (g₂.1 ++ ',' :: (g₃.1 ++ '"' ::
        (v ++ '"' :: (g₄.1 ++ [')'])))))) = '(' :: ((g₁.1 ++ '"' :: (n ++ '"' :: (g₂.1 ++ ',' ::
          (g₃.1 ++ '"' :: (v ++ '"' :: g₄.1))))) ++ [')']) := by simp
    have hvalue : Nested none (g₃.1 ++ '"' :: (v ++ '"' :: g₄.1)) :=
      (nested_blank g₃.2).weaken.append (.literal hv.isRaw (nested_blank g₄.2).weaken)
    have hinner : Nested none (g₁.1 ++ '"' :: (n ++ '"' :: (g₂.1 ++ ',' ::
        (g₃.1 ++ '"' :: (v ++ '"' :: g₄.1))))) :=
      (nested_blank g₁.2).weaken.append (.literal hn.isRaw ((nested_blank g₂.2).weaken.append
        (.char (by decide) (by decide) (by decide) hvalue)))
    rw [hs]
    exact .bracketed (b := ('(', ')')) (by decide) hinner .nil
  | accept h => exact h.nested (by decide)
  | bearer h => exact h.nested (by decide)
  | plan => exact nested_word (by decide)
  | rangeFromTo h => exact h.nested (by decide) (by decide)
  | rangeFrom h => exact h.nested (by decide) (by decide)
  | rangeWithCount h => exact h.nested (by decide) (by decide)

/-! ## Lists -/

/-- An expression with white space around it. -/
inductive Item : Text → HeaderExpr → Prop
  | mk (g₁ g₂ : Gap) {s : Text} {e : HeaderExpr} : Written s e → Item (g₁.1 ++ (s ++ g₂.1)) e

/-- How the headers of a request are written: a list of expressions, or one in parentheses. -/
inductive Delimited : Text → List HeaderExpr → Prop
  | empty (g : Gap) : Delimited ('[' :: (g.1 ++ [']'])) []
  | list {parts : List Text} {es : List HeaderExpr} : parts ≠ [] → List.Forall₂ Item parts es →
    Delimited ('[' :: ([','].intercalate parts ++ [']'])) es
  | call {s : Text} {e : HeaderExpr} : Item s e → Delimited ('(' :: (s ++ [')'])) [e]

/-- The headers of an expression that is no name. -/
def ownHeaders (e : HeaderExpr) : List Header :=
  match e.headers with
  | .inl hs => hs
  | .inr _ => []

variable {p : Text}

theorem Written.ne_nil (h : Written s e) : s ≠ [] := by
  rintro rfl
  have := parse?_of_written h
  rw [show parse? [] = none from rfl] at this
  cases this

theorem Item.trim (h : Item p e) : Written (Text.trim p) e := by
  cases h with
  | @mk g₁ g₂ s _ hw =>
    have hstart : Text.trimStart (g₁.1 ++ (s ++ g₂.1)) = s ++ g₂.1 := by
      rw [trimStart_append_of_allBlank g₁.2, trimStart_append, hw.trimStart, if_neg hw.ne_nil]
    rwa [Text.trim, hstart, trimEnd_gap g₂ hw.trimEnd]

theorem Item.nested (h : Item p e) : Nested (some ',') p := by
  cases h with
  | mk g₁ g₂ hw => exact (nested_blank g₁.2).append (hw.nested.append (nested_blank g₂.2))

theorem resolve?_of_headers {bindings : Bindings} {hs : List Header} (hp : parse? p = some e)
    (he : e.headers = .inl hs) : HeaderExpr.resolve? bindings p = some hs := by
  rw [HeaderExpr.resolve?]
  simp only [hp]
  split
  · next heq => rw [← Sum.inl.inj (heq.symm.trans he)]
  · next heq => cases heq.symm.trans he

theorem Item.resolve? (h : Item p e) (bindings : Bindings) :
    HeaderExpr.resolve? bindings p = some e.ownHeaders := by
  have hp : parse? p = some e := by
    rw [parse?, ← h.trim.trim]
    exact parse?_of_written h.trim
  refine resolve?_of_headers hp ?_
  cases h with
  | mk g₁ g₂ hw => cases hw <;> rfl

theorem Item.allBlank (h : Item p e) : Text.allBlank p = false := by
  have hne := h.trim.ne_nil
  rwa [ne_eq, trim_eq_nil_iff, Bool.not_eq_true] at hne

theorem mapM_items {parts : List Text} {es : List HeaderExpr} (h : List.Forall₂ Item parts es)
    (bindings : Bindings) :
    parts.mapM (HeaderExpr.resolve? bindings) = some (es.map ownHeaders) := by
  induction h with
  | nil => rfl
  | cons hp _ ih => simp [hp.resolve? bindings, ih]

theorem nested_items {parts : List Text} {es : List HeaderExpr} (h : List.Forall₂ Item parts es) :
    ∀ p ∈ parts, Nested (some ',') p ∧ Text.allBlank p = false := by
  induction h with
  | nil => simp
  | cons hp _ ih => simpa using ⟨⟨hp.nested, hp.allBlank⟩, ih⟩

theorem nested_intercalate {parts : List Text} {es : List HeaderExpr}
    (h : List.Forall₂ Item parts es) : Nested none ([','].intercalate parts) := by
  induction h with
  | nil => exact .nil
  | @cons p e ps es hp hps ih =>
    cases ps with
    | nil => simpa using hp.nested.weaken
    | cons q ps =>
      rw [List.intercalate_cons_cons, List.append_assoc]
      exact hp.nested.weaken.append (.char (by decide) (by decide) (by decide) ih)

theorem mapM_resolve?_trim (bindings : Bindings) (parts : List Text) :
    (parts.map Text.trim).mapM (HeaderExpr.resolve? bindings) =
      parts.mapM (HeaderExpr.resolve? bindings) := by
  have htrim : HeaderExpr.resolve? bindings ∘ Text.trim = HeaderExpr.resolve? bindings :=
    funext resolve?_trim
  rw [List.mapM_map, htrim]

/-- A list has the headers of its parts, whatever white space is around them. -/
theorem resolveList?_brackets (bindings : Bindings) (inner : Text) :
    resolveList? bindings ('[' :: (inner ++ [']'])) =
      ((topLevel ',' inner).mapM (HeaderExpr.resolve? bindings)).map List.flatten := by
  rw [resolveList?, trim_cons_append_singleton (by decide) (by decide)]
  simp only [before?_eq_some_iff.2 (rfl : inner ++ [']'] = inner ++ [']'])]
  rw [← mapM_resolve?_trim, ← topLevel_trim (by decide), mapM_resolve?_trim, Option.map_eq_bind]
  rfl

/-- **A list has the headers of its elements**, in their order. -/
theorem resolveList?_list {parts : List Text} {es : List HeaderExpr}
    (h : List.Forall₂ Item parts es) (bindings : Bindings) :
    resolveList? bindings ('[' :: ([','].intercalate parts ++ [']'])) =
      some (es.flatMap ownHeaders) := by
  have hparts := nested_items h
  have htop : topLevel ',' ([','].intercalate parts) = parts :=
    topLevel_intercalate (by decide) (by decide)
      (fun q hq => ((hparts q hq).1.balanced (by decide) (by decide)).isPart)
      fun q hq => (hparts q (List.mem_of_getLast? hq)).2
  rw [resolveList?_brackets, htop, mapM_items h, Option.map_some, List.flatMap_def]

theorem resolveList?_empty (g : Gap) (bindings : Bindings) :
    resolveList? bindings ('[' :: (g.1 ++ [']'])) = some [] := by
  rw [resolveList?_brackets, topLevel_of_allBlank (by decide) g.2]
  rfl

theorem resolveList?_item (h : Item p e) (bindings : Bindings) :
    resolveList? bindings p = some e.ownHeaders := by
  have hne {s : Text} (h : Written s e) (r : Text) : s ≠ '[' :: r := by
    intro heq
    have hlead := h.leadingWord
    rw [heq] at hlead
    cases h with
    | tuple => cases heq
    | _ => cases hlead
  have hitem : Item (Text.trim p) e := by simpa [Gap.none] using Item.mk Gap.none Gap.none h.trim
  rw [resolveList?]
  split
  · next heq => exact absurd heq (hne h.trim _)
  · exact hitem.resolve? bindings

end SpecHarvest.HeaderExpr
