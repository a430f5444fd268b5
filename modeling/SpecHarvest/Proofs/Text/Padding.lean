import Mathlib.Data.List.Forall2
import Mathlib.Data.Option.Basic
import SpecHarvest.Proofs.Text.Collapse
import SpecHarvest.Proofs.Text.Occurrence

/-!
# Spaces at the ends of lines

`Padded last s t`: the text `t` is `s` with a space put in before some of its line feeds and, if
`last` says so, maybe at its end.

* A text is divided where its padded form is: `Padded.after?`, `Padded.cut?`. The part before such a
  place has no space at its end that the other has not.
* What is counted, looked for between word boundaries or collapsed does not change:
  `Padded.occurrences`, `Padded.atWordStart`, `Padded.collapse`.

`PaddedTexts` are texts and their padded forms one by one.
-/

namespace SpecHarvest.Text

/-! ## Related results -/

theorem cases_of_rel {α β : Type} {R : α → β → Prop} {o : Option α} {o' : Option β}
    (h : Option.Rel R o o') :
    (o = none ∧ o' = none) ∨ ∃ a b, o = some a ∧ o' = some b ∧ R a b := by
  cases h with
  | none => exact .inl ⟨rfl, rfl⟩
  | some hr => exact .inr ⟨_, _, rfl, rfl, hr⟩

theorem isSome_eq_of_rel {α β : Type} {R : α → β → Prop} {o : Option α} {o' : Option β}
    (h : Option.Rel R o o') : o.isSome = o'.isSome := by
  cases h <;> rfl

theorem rel_bind {α β γ δ : Type} {R : α → β → Prop} {S : γ → δ → Prop} {o : Option α}
    {o' : Option β} {f : α → Option γ} {g : β → Option δ} (h : Option.Rel R o o')
    (hf : ∀ a b, R a b → Option.Rel S (f a) (g b)) : Option.Rel S (o.bind f) (o'.bind g) := by
  cases h with
  | none => exact .none
  | some hr => exact hf _ _ hr

theorem rel_map {α β γ δ : Type} {R : α → β → Prop} {S : γ → δ → Prop} {o : Option α}
    {o' : Option β} {f : α → γ} {g : β → δ} (h : Option.Rel R o o')
    (hf : ∀ a b, R a b → S (f a) (g b)) : Option.Rel S (o.map f) (o'.map g) := by
  cases h with
  | none => exact .none
  | some hr => exact .some (hf _ _ hr)

theorem rel_findSome? {α β : Type} {R : β → β → Prop} {readers : List (α → Option β)} {a a' : α}
    (h : ∀ read ∈ readers, Option.Rel R (read a) (read a')) :
    Option.Rel R (readers.findSome? (· a)) (readers.findSome? (· a')) := by
  induction readers with
  | nil => exact .none
  | cons read readers ih =>
    rw [List.findSome?_cons, List.findSome?_cons]
    rcases cases_of_rel (h read List.mem_cons_self) with ⟨ha, hb⟩ | ⟨b, c, ha, hb, hr⟩
    · rw [ha, hb]
      exact ih fun r hr => h r (List.mem_cons_of_mem _ hr)
    · rw [ha, hb]
      exact .some hr

/-! ## Padded texts -/

/-- A text and the same text with spaces put in before line feeds, and maybe at its end. -/
inductive Padded : (last : Bool) → Text → Text → Prop
  | nil {last} : Padded last [] []
  | space : Padded true [] [' ']
  | cons {last} (c : Char) {s t} : Padded last s t → Padded last (c :: s) (c :: t)
  | newline {last s t} : Padded last s t → Padded last ('\n' :: s) (' ' :: '\n' :: t)

/-- Two texts divided in the same way. -/
def PaddedPair (last : Bool) (p q : Text × Text) : Prop :=
  Padded false p.1 q.1 ∧ Padded last p.2 q.2

namespace Padded

variable {last : Bool} {s t lit : Text}

theorem refl (last : Bool) (s : Text) : Padded last s s := by
  induction s with
  | nil => exact .nil
  | cons c s ih => exact .cons c ih

theorem append {a b : Text} (h : Padded false a b) (h' : Padded last s t) :
    Padded last (a ++ s) (b ++ t) := by
  generalize hl : false = l at h
  induction h with
  | nil => exact h'
  | space => cases hl
  | cons c h ih => exact .cons c (ih hl)
  | newline h ih => exact .newline (ih hl)

theorem weaken (h : Padded false s t) : Padded last s t := by
  simpa using h.append (.nil : Padded last [] [])

/-- One space at the end of a line. -/
theorem of_space (u : Text) {v : Text} (hv : v = [] ∨ ∃ w, v = '\n' :: w) :
    Padded true (u ++ v) (u ++ ' ' :: v) := by
  refine (refl false u).append ?_
  rcases hv with rfl | ⟨w, rfl⟩
  · exact .space
  · exact .newline (refl true w)

theorem eq_nil (h : Padded false s t) : s = [] ↔ t = [] := by
  cases h <;> simp

/-! ## First characters -/

theorem cons_left {c : Char} (h : Padded last (c :: s) t) :
    (∃ t', t = c :: t' ∧ Padded last s t') ∨
      (c = '\n' ∧ ∃ t', t = ' ' :: '\n' :: t' ∧ Padded last s t') := by
  cases h with
  | cons _ h => exact .inl ⟨_, rfl, h⟩
  | newline h => exact .inr ⟨rfl, _, rfl, h⟩

theorem cons_left_of_ne {c : Char} (hc : c ≠ '\n') (h : Padded last (c :: s) t) :
    ∃ t', t = c :: t' ∧ Padded last s t' :=
  h.cons_left.resolve_right fun he => hc he.1

/-! ## White space -/

theorem trimStart (h : Padded last s t) : Padded last (trimStart s) (trimStart t) := by
  induction h with
  | nil => exact .nil
  | space => exact .nil
  | @cons last c s t h ih =>
    cases hc : isBlank c with
    | true => simpa [Text.trimStart, hc] using ih
    | false => simpa [Text.trimStart, hc] using h.cons c
  | newline h ih =>
    have hs : isBlank ' ' = true := by decide
    have hn : isBlank '\n' = true := by decide
    simpa [Text.trimStart, hs, hn] using ih

theorem trimEnd_cons (c : Char) (s : Text) : trimEnd (c :: s) =
    if trimEnd s = [] ∧ isBlank c = true then [] else c :: trimEnd s := by
  unfold trimEnd
  rw [List.reverse_cons, List.dropWhile_append]
  cases h : List.dropWhile isBlank s.reverse with
  | nil => cases hc : isBlank c <;> simp [hc]
  | cons d r => simp

theorem trimEnd (h : Padded last s t) : Padded false (trimEnd s) (trimEnd t) := by
  have hs : isBlank ' ' = true := by decide
  have hn : isBlank '\n' = true := by decide
  induction h with
  | nil => exact .nil
  | space => exact .nil
  | @cons last c s t h ih =>
    by_cases hnil : Text.trimEnd s = []
    · have hnil' := ih.eq_nil.1 hnil
      cases hc : isBlank c with
      | true => simpa [trimEnd_cons, hnil, hnil', hc] using .nil
      | false => simpa [trimEnd_cons, hnil, hnil', hc] using .cons c .nil
    · have hnil' := mt ih.eq_nil.2 hnil
      simpa [trimEnd_cons, hnil, hnil'] using ih.cons c
  | @newline last s t h ih =>
    by_cases hnil : Text.trimEnd s = []
    · have hnil' := ih.eq_nil.1 hnil
      simpa [trimEnd_cons, hnil, hnil', hs, hn] using .nil
    · have hnil' := mt ih.eq_nil.2 hnil
      simpa [trimEnd_cons, hnil, hnil'] using ih.newline

theorem trim (h : Padded last s t) : Padded false (trim s) (trim t) := h.trimStart.trimEnd

/-- What holds of no white space holds of both texts as far as of one. -/
theorem all_eq {p : Char → Bool} (hs : p ' ' = false) (hn : p '\n' = false)
    (h : Padded false s t) : s.all p = t.all p := by
  generalize hl : false = l at h
  induction h with
  | nil => rfl
  | space => cases hl
  | cons c h ih => simp [ih hl]
  | newline h ih => simp [hs, hn]

theorem takeWhile_eq {p : Char → Bool} (hs : p ' ' = false) (hn : p '\n' = false)
    (h : Padded last s t) :
    s.takeWhile p = t.takeWhile p ∧ Padded last (s.dropWhile p) (t.dropWhile p) := by
  induction h with
  | nil => exact ⟨rfl, .nil⟩
  | space => simpa [hs] using .space
  | @cons last c s t h ih =>
    cases hc : p c with
    | true => simpa [hc] using ih
    | false => simpa [hc] using h.cons c
  | newline h ih => simpa [hs, hn] using h.newline

theorem squeeze_eq (h : Padded last s t) : ∀ j, squeeze j s = squeeze j t := by
  have hs : isBlank ' ' = true := by decide
  have hn : isBlank '\n' = true := by decide
  induction h with
  | nil => intro j; rfl
  | space =>
    intro j
    rw [squeeze_blank hs]
    rfl
  | cons c h ih =>
    intro j
    simp only [squeeze, ih]
  | newline h ih =>
    intro j
    rw [squeeze_blank hn, squeeze_blank hs, squeeze_blank hn, ih]

/-- **Collapsing takes the spaces away.** -/
theorem collapse_eq (h : Padded last s t) : collapse s = collapse t := by
  rw [collapse_eq_tail_squeeze, collapse_eq_tail_squeeze, h.squeeze_eq]

/-! ## Given texts -/

/-- A text that is looked for and that white space ends. -/
def Solid (lit : Text) : Prop := ' ' ∉ lit ∧ '\n' ∉ lit

instance : DecidablePred Solid := fun _ => inferInstanceAs (Decidable (_ ∧ _))

theorem Solid.tail {c : Char} (h : Solid (c :: lit)) : Solid lit :=
  ⟨fun hm => h.1 (by simp [hm]), fun hm => h.2 (by simp [hm])⟩

theorem Solid.head {c : Char} (h : Solid (c :: lit)) : c ≠ ' ' ∧ c ≠ '\n' := by
  refine ⟨?_, ?_⟩
  · rintro rfl
    exact h.1 (by simp)
  · rintro rfl
    exact h.2 (by simp)

theorem after? (hl : Solid lit) (h : Padded last s t) :
    Option.Rel (Padded last) (after? lit s) (after? lit t) := by
  induction lit generalizing s t with
  | nil => exact .some h
  | cons c lit ih =>
    obtain ⟨hs, hn⟩ := hl.head
    cases h with
    | nil => exact .none
    | space => simp [Text.after?, hs]
    | cons d h =>
      by_cases hd : c = d
      · simpa [Text.after?, hd] using ih hl.tail h
      · simp [Text.after?, hd]
    | newline h => simp [Text.after?, hs, hn]

theorem startsWith_eq (hl : Solid lit) (h : Padded last s t) :
    startsWith lit s = startsWith lit t :=
  isSome_eq_of_rel (h.after? hl)

theorem cut? (hl : Solid lit) (hne : lit ≠ []) (h : Padded last s t) :
    Option.Rel (PaddedPair last) (cut? lit s) (cut? lit t) := by
  obtain ⟨l, lit, rfl⟩ := List.exists_cons_of_ne_nil hne
  obtain ⟨hls, hln⟩ := hl.head
  induction h with
  | nil => simp [Text.cut?]
  | space => simp [Text.cut?, Text.after?, hls]
  | cons c h ih =>
    rw [Text.cut?, Text.cut?]
    rcases cases_of_rel ((h.cons c).after? hl) with ⟨ha, ha'⟩ | ⟨r, r', ha, ha', hr⟩
    · rw [ha, ha']
      exact rel_map ih fun p q hp => ⟨hp.1.cons c, hp.2⟩
    · rw [ha, ha']
      exact .some ⟨.nil, hr⟩
  | newline h ih =>
    simp only [Text.cut?, Text.after?, hls, hln, if_false, Option.map_map]
    exact rel_map ih fun p q hp => ⟨hp.1.newline, hp.2⟩

theorem occurrences_eq (hl : Solid lit) (hne : lit ≠ []) (h : Padded last s t) :
    occurrences lit s = occurrences lit t := by
  induction hn : s.length using Nat.strongRecOn generalizing s t with
  | ind n ih =>
    rcases cases_of_rel (h.cut? hl hne) with ⟨hs, ht⟩ | ⟨⟨f, r⟩, ⟨f', r'⟩, hs, ht, hp⟩
    · rw [(cut?_eq_none_iff hne).1 hs, (cut?_eq_none_iff hne).1 ht]
    · have hlen : r.length < n := by
        have := congrArg List.length (eq_of_cut? hs)
        have := List.length_pos_iff.2 hne
        simp only [List.length_append] at *
        omega
      rw [occurrences_of_cut? hne hs, occurrences_of_cut? hne ht, ih _ hlen hp.2 rfl]

/-! ## Words -/

theorem endsHere_eq {inWord : Char → Bool} (hs : inWord ' ' = false) (hn : inWord '\n' = false)
    (h : Padded last s t) : endsHere inWord s = endsHere inWord t := by
  cases h <;> simp [endsHere, hs, hn]

theorem isWordChar_space : isWordChar ' ' = false ∧ isWordChar '\n' = false := by decide

theorem wordHere_eq (hl : Solid lit) (h : Padded last s t) : wordHere lit s = wordHere lit t := by
  unfold wordHere
  rcases cases_of_rel (h.after? hl) with ⟨hs, ht⟩ | ⟨r, r', hs, ht, hr⟩
  · rw [hs, ht]
  · rw [hs, ht]
    exact hr.endsHere_eq isWordChar_space.1 isWordChar_space.2

/-- **A search between word boundaries** does not change if what is looked for does not, and is not
found at white space. -/
theorem atWordStart_eq {accepts : Text → Bool}
    (ha : ∀ {last s t}, Padded last s t → accepts s = accepts t)
    (hb : ∀ c s, isBlank c = true → accepts (c :: s) = false) (hnil : accepts [] = false)
    (h : Padded last s t) : atWordStart accepts s = atWordStart accepts t := by
  have hs : isBlank ' ' = true := by decide
  have hn : isBlank '\n' = true := by decide
  suffices ∀ start, atWordStart.go accepts start s = atWordStart.go accepts start t from this true
  induction h with
  | nil => intro start; rfl
  | space =>
    intro start
    simp [atWordStart.go, hb _ _ hs, hnil]
  | cons c h ih =>
    intro start
    rw [atWordStart.go, atWordStart.go, ha (h.cons c), ih]
  | newline h ih =>
    intro start
    simp [atWordStart.go, hb _ _ hs, hb _ _ hn, isWordChar_space, ih]

theorem hasWord_eq (hl : Solid lit) (hne : ∃ c r, lit = c :: r ∧ isBlank c = false)
    (h : Padded last s t) : hasWord lit s = hasWord lit t := by
  obtain ⟨l, lit, rfl, hc⟩ := hne
  refine atWordStart_eq (fun h => h.wordHere_eq hl) (fun d s hd => ?_) rfl h
  have hne : l ≠ d := by
    rintro rfl
    rw [hc] at hd
    cases hd
  simp [wordHere, Text.after?, hne]

theorem isSome_firstAt_eq {α : Type} {read : Text → Option α}
    (hr : ∀ {last s t}, Padded last s t → (read s).isSome = (read t).isSome)
    (hb : ∀ c s, isBlank c = true → read (c :: s) = none) (hnil : read [] = none)
    (h : Padded last s t) : (firstAt read s).isSome = (firstAt read t).isSome := by
  have hs : isBlank ' ' = true := by decide
  have hn : isBlank '\n' = true := by decide
  induction h with
  | nil => rfl
  | space => simp [firstAt, hb _ _ hs, hnil]
  | cons c h ih =>
    rw [firstAt, firstAt, Option.isSome_or, Option.isSome_or, hr (h.cons c), ih]
  | newline h ih => simpa [firstAt, hb _ _ hs, hb _ _ hn] using ih

end Padded

/-! ## Several texts -/

/-- Texts and their padded forms, of which only the last one may get a space at its end. -/
inductive PaddedTexts (last : Bool) : List Text → List Text → Prop
  | nil : PaddedTexts last [] []
  | single {s t} : Padded last s t → PaddedTexts last [s] [t]
  | cons {s t ss ts} : Padded false s t → PaddedTexts last ss ts →
    PaddedTexts last (s :: ss) (t :: ts)

namespace PaddedTexts

variable {last : Bool} {ss ts : List Text}

theorem of_forall₂ (h : List.Forall₂ (Padded false) ss ts) : PaddedTexts last ss ts := by
  induction h with
  | nil => exact .nil
  | cons hp _ ih => exact .cons hp ih

theorem forall₂ (h : PaddedTexts last ss ts) : List.Forall₂ (Padded last) ss ts := by
  induction h with
  | nil => exact .nil
  | single hp => exact .cons hp .nil
  | cons hp _ ih => exact .cons hp.weaken ih

theorem flatMap (h : PaddedTexts last ss ts) (sep : Text) :
    Padded last (ss.flatMap (sep ++ ·)) (ts.flatMap (sep ++ ·)) := by
  have hsep := Padded.refl false sep
  induction h with
  | nil => exact .nil
  | single hp => simpa using hsep.append hp
  | cons hp _ ih =>
    rw [List.flatMap_cons, List.flatMap_cons]
    exact (hsep.append hp).append ih

end PaddedTexts

end SpecHarvest.Text
