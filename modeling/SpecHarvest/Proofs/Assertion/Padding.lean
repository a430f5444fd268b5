import Mathlib.Data.List.Forall2
import SpecHarvest.Proofs.Assertion.Span
import SpecHarvest.Proofs.Source.Trailing
import SpecHarvest.Proofs.Text.Padding

/-!
# Assertions and spaces at the ends of lines

A block is looked at for constructs, requests that write and separators without regard to the spaces
at the ends of its lines. It is cut into the same parts, too, unless a line is the word `request`
alone: a space after the word makes it the start of a request.

* `Padded.first?_eq`, `Padded.isMutating_eq`: the searches.
* `PaddedLines`: lines of which none becomes the start of a request.
* `paddedTexts_assertionSpans`: the parts of texts made of such lines.
-/

namespace SpecHarvest

open Text Source

/-! ## Searches -/

theorem blank_head {lit : Text} {c : Char} {s : Text} (hc : isBlank c = true)
    (hl : ∃ d r, lit = d :: r ∧ isBlank d = false) : after? lit (c :: s) = none := by
  obtain ⟨d, r, rfl, hd⟩ := hl
  have hne : d ≠ c := by
    rintro rfl
    rw [hc] at hd
    cases hd
  simp [after?, hne]

namespace Text.Padded

variable {last : Bool} {s t : Text}

theorem isSome_lambdaHere?_eq (h : Padded last s t) :
    (Construct.lambdaHere? s).isSome = (Construct.lambdaHere? t).isSome := by
  refine isSome_eq_of_rel (R := fun _ _ => True) ?_
  refine rel_bind (h.after? (show Solid ['\\'] by decide)) fun _ _ hr => ?_
  refine rel_bind (hr.trimStart.after? (show Solid ['_'] by decide)) fun _ _ hr => ?_
  refine rel_bind (hr.trimStart.after? (show Solid "->".toList by decide)) fun _ _ _ => ?_
  exact .some trivial

/-- A construct is used in both texts or in none. -/
theorem usedIn_eq (h : Padded last s t) (c : Construct) : c.usedIn s = c.usedIn t := by
  cases c with
  | lambda =>
    refine h.isSome_firstAt_eq (fun h => h.isSome_lambdaHere?_eq) (fun d u hd => ?_) rfl
    have hn : Text.after? ['\\'] (d :: u) = none := blank_head hd ⟨'\\', [], rfl, by decide⟩
    simp [Construct.lambdaHere?, hn]
  | _ => exact h.hasWord_eq (by decide) ⟨_, _, rfl, by decide⟩

theorem first?_eq (h : Padded last s t) : Construct.first? s = Construct.first? t := by
  unfold Construct.first?
  rw [funext fun c => h.usedIn_eq c]

theorem any_writeMethods_eq (h : Padded last s t) :
    writeMethods.any (wordHere · s) = writeMethods.any (wordHere · t) := by
  have hsolid : ∀ word ∈ writeMethods, Solid word := by decide
  rw [Bool.eq_iff_iff, List.any_eq_true, List.any_eq_true]
  refine exists_congr fun word => and_congr_right fun hm => ?_
  rw [h.wordHere_eq (hsolid word hm)]

theorem writeRequestHere_eq (h : Padded last s t) : writeRequestHere s = writeRequestHere t := by
  unfold writeRequestHere
  rcases cases_of_rel (h.after? (show Solid "request".toList by decide)) with
    ⟨hs, ht⟩ | ⟨r, r', hs, ht, hr⟩
  · rw [hs, ht]
  · rw [hs, ht]
    cases hr with
    | nil => rfl
    | space => decide
    | cons c h => simp only [h.trimStart.any_writeMethods_eq]
    | @newline _ r r' h =>
      have hs : isBlank ' ' = true := by decide
      have hn : isBlank '\n' = true := by decide
      have ht : Text.trimStart ('\n' :: r') = Text.trimStart r' := by simp [Text.trimStart, hn]
      simp only [hs, hn, ht, h.trimStart.any_writeMethods_eq]

theorem writeHere_blank {c : Char} (hc : isBlank c = true) (s : Text) :
    writeHere (c :: s) = false := by
  have hpost : Text.after? "post".toList (c :: s) = none :=
    blank_head hc ⟨_, _, rfl, by decide⟩
  have hpatch : Text.after? "patch".toList (c :: s) = none :=
    blank_head hc ⟨_, _, rfl, by decide⟩
  have hrequest : Text.after? "request".toList (c :: s) = none :=
    blank_head hc ⟨_, _, rfl, by decide⟩
  simp only [writeHere, wordHere, writeRequestHere, hpost, hpatch, hrequest, Bool.or_self]

theorem isMutating_eq (h : Padded last s t) : isMutating s = isMutating t := by
  refine h.atWordStart_eq (fun h => ?_) (fun _ s hc => writeHere_blank hc s) (by decide)
  unfold writeHere
  rw [h.wordHere_eq (by decide), h.wordHere_eq (by decide), h.writeRequestHere_eq]

end Text.Padded

/-! ## Lines that make a request -/

theorem startsWith_append_iff {lit x y : Text} : startsWith lit (x ++ y) = true ↔
    startsWith lit x = true ∨ ∃ a b, a ≠ [] ∧ lit = x ++ a ∧ y = a ++ b := by
  simp only [startsWith_iff]
  constructor
  · rintro ⟨r, hr⟩
    rcases List.append_eq_append_iff.1 hr with ⟨a, ha, hy⟩ | ⟨a, ha, -⟩
    · by_cases hne : a = []
      · subst hne
        exact .inl ⟨[], by simpa using ha.symm⟩
      · exact .inr ⟨a, r, hne, ha, hy⟩
    · exact .inl ⟨a, ha⟩
  · rintro (⟨r, rfl⟩ | ⟨a, b, -, rfl, rfl⟩)
    · exact ⟨r ++ y, List.append_assoc ..⟩
    · exact ⟨b, (List.append_assoc ..).symm⟩

/-- What comes at the end of a line: nothing or a line feed. -/
def IsLineEnd (z : Text) : Prop := z = [] ∨ z = ['\n']

theorem IsLineEnd.of_startsLine {s : Text} (h : IsLineEnd s) : StartsLine s := by
  rcases h with rfl | rfl
  · exact .inl rfl
  · exact .inr ⟨[], rfl⟩

/-- Only the word `request` is made the start of a request by a space after it. -/
theorem startsWith_space {lit u z : Text} (hlit : lit ∈ requestStarts) (hz : IsLineEnd z)
    (hu : u ≠ "request".toList) :
    startsWith lit (u ++ ' ' :: z) = startsWith lit (u ++ z) := by
  have hnewline : ∀ lit ∈ requestStarts, '\n' ∉ lit := by decide
  have hlast : ∀ lit ∈ requestStarts, lit.getLast? = some ' ' → lit = "request ".toList := by
    decide
  rw [Bool.eq_iff_iff, startsWith_append_iff, startsWith_append_iff]
  refine or_congr_right ⟨?_, ?_⟩
  · rintro ⟨a, b, ha, rfl, hab⟩
    exfalso
    obtain ⟨d, a, rfl⟩ := List.exists_cons_of_ne_nil ha
    obtain ⟨hd, hz'⟩ := List.cons.inj hab
    have hnil : a = [] := by
      cases a with
      | nil => rfl
      | cons e a =>
        rcases hz with rfl | rfl
        · cases hz'
        · obtain ⟨rfl, -⟩ := List.cons.inj hz'
          exact absurd (by simp) (hnewline _ hlit)
    subst hd hnil
    have := hlast _ hlit (by simp)
    exact hu (List.append_cancel_right (show u ++ [' '] = "request".toList ++ [' '] from this))
  · rintro ⟨a, b, ha, rfl, hab⟩
    exfalso
    obtain ⟨d, a, rfl⟩ := List.exists_cons_of_ne_nil ha
    rcases hz with rfl | rfl
    · cases hab
    · obtain ⟨rfl, -⟩ := List.cons.inj hab
      exact absurd (by simp) (hnewline _ hlit)

theorem startsRequest_space {l z : Text} (hz : IsLineEnd z)
    (hl : trimStart l ≠ "request".toList) :
    startsRequest (l ++ ' ' :: z) = startsRequest (l ++ z) := by
  have hblank : isBlank ' ' = true := by decide
  unfold startsRequest
  rw [trimStart_append, trimStart_append]
  split
  · rw [trimStart, List.dropWhile_cons_of_pos hblank]
    rfl
  · rw [Bool.eq_iff_iff, List.any_eq_true, List.any_eq_true]
    refine exists_congr fun lit => and_congr_right fun hm => ?_
    rw [startsWith_space hm hz hl]

/-- A line feed at its end does not make a line the start of a request. -/
theorem startsRequest_newline (l : Text) : startsRequest (l ++ ['\n']) = startsRequest l := by
  have hnewline : ∀ lit ∈ requestStarts, '\n' ∉ lit := by decide
  have hstart : ∀ lit ∈ requestStarts, startsWith lit [] = false := by decide
  unfold startsRequest
  rw [trimStart_append]
  split
  · next hl =>
    rw [hl]
    rfl
  · rw [Bool.eq_iff_iff, List.any_eq_true, List.any_eq_true]
    refine exists_congr fun lit => and_congr_right fun hm => ?_
    rw [startsWith_append_iff]
    refine or_iff_left ?_
    rintro ⟨a, b, ha, rfl, hab⟩
    obtain ⟨d, a, rfl⟩ := List.exists_cons_of_ne_nil ha
    obtain ⟨rfl, -⟩ := List.cons.inj hab
    exact hnewline _ hm (by simp)

/-! ## Lines put together -/

/-- Lines with their line feeds, with spaces put in at their ends, so that none becomes the start of
a request. -/
inductive PaddedLines : List Text → List Text → Prop
  | nil : PaddedLines [] []
  | single {l l' : Text} : Padded true l l' → startsRequest l = startsRequest l' →
    PaddedLines [l] [l']
  | cons {l l' : Text} {ls ls' : List Text} : Padded false l l' →
    startsRequest l = startsRequest l' → PaddedLines ls ls' → PaddedLines (l :: ls) (l' :: ls')

namespace PaddedLines

variable {ls ls' : List Text}

theorem flatten (h : PaddedLines ls ls') : Padded true ls.flatten ls'.flatten := by
  induction h with
  | nil => exact .nil
  | single h => simpa using h
  | cons h _ _ ih => exact h.append ih

theorem takeWhile (h : PaddedLines ls ls') :
    PaddedLines (ls.takeWhile (!startsRequest ·)) (ls'.takeWhile (!startsRequest ·)) := by
  induction h with
  | nil => exact .nil
  | @single l l' h hr =>
    cases hs : startsRequest l' with
    | true => simpa [hr, hs] using .nil
    | false => simpa [hr, hs] using .single h hr
  | @cons l l' ls ls' h hr _ ih =>
    cases hs : startsRequest l' with
    | true => simpa [hr, hs] using .nil
    | false => simpa [hr, hs] using .cons h hr ih

theorem dropWhile (h : PaddedLines ls ls') :
    PaddedLines (ls.dropWhile (!startsRequest ·)) (ls'.dropWhile (!startsRequest ·)) := by
  induction h with
  | nil => exact .nil
  | @single l l' h hr =>
    cases hs : startsRequest l' with
    | true => simpa [hr, hs] using .single h hr
    | false => simpa [hr, hs] using .nil
  | @cons l l' ls ls' h hr hls ih =>
    cases hs : startsRequest l' with
    | true => simpa [hr, hs] using .cons h hr hls
    | false => simpa [hr, hs] using ih

theorem length_filter_eq (h : PaddedLines ls ls') :
    (ls.filter startsRequest).length = (ls'.filter startsRequest).length := by
  induction h with
  | nil => rfl
  | single h hr =>
    rw [List.filter_cons, List.filter_cons, hr]
    split <;> rfl
  | cons h hr _ ih =>
    rw [List.filter_cons, List.filter_cons, hr]
    split <;> simp [ih]

/-- Lines that are not the last ones get no space after them. -/
theorem flatten_takeWhile (h : PaddedLines ls ls') (hne : ls.dropWhile (!startsRequest ·) ≠ []) :
    Padded false (ls.takeWhile (!startsRequest ·)).flatten
      (ls'.takeWhile (!startsRequest ·)).flatten := by
  induction h with
  | nil => exact .nil
  | @single l l' h hr =>
    cases hs : startsRequest l' with
    | true => simpa [hr, hs] using .nil
    | false => simp [hr, hs] at hne
  | @cons l l' ls ls' h hr _ ih =>
    cases hs : startsRequest l' with
    | true => simpa [hr, hs] using .nil
    | false => simpa [hr, hs] using h.append (ih (by simpa [hr, hs] using hne))

theorem requestSpans (h : PaddedLines ls ls') :
    PaddedTexts true (requestSpans ls) (requestSpans ls') := by
  induction hn : ls.length using Nat.strongRecOn generalizing ls ls' with
  | ind n ih =>
    cases h with
    | nil =>
      rw [SpecHarvest.requestSpans]
      exact .nil
    | single h hr => simpa [SpecHarvest.requestSpans] using .single h
    | @cons l l' ls ls' h hr hls =>
      have hlen : (ls.dropWhile (!startsRequest ·)).length < n := by
        have := (List.dropWhile_suffix (!startsRequest ·) (l := ls)).length_le
        rw [← hn, List.length_cons]
        omega
      have hrest := ih _ hlen hls.dropWhile rfl
      rw [SpecHarvest.requestSpans, SpecHarvest.requestSpans]
      by_cases hd : ls.dropWhile (!startsRequest ·) = []
      · rw [hd, SpecHarvest.requestSpans] at hrest ⊢
        generalize SpecHarvest.requestSpans (ls'.dropWhile (!startsRequest ·)) = spans at hrest ⊢
        cases hrest
        exact .single (h.append hls.takeWhile.flatten)
      · exact .cons (h.append (hls.flatten_takeWhile hd)) hrest

end PaddedLines

/-- Lines of which some get a space, none of them the word `request` alone. -/
def SpacedLines : List Text → List Text → Prop :=
  List.Forall₂ fun l l' => l' = l ∨ l' = l ++ [' '] ∧ trimStart l ≠ "request".toList

theorem fullLines_of_not_mem {l : Text} (h : '\n' ∉ l) : fullLines l = [l] := by
  have := fullLines_append (y := []) h
  simpa [fullLines] using this

theorem fullLines_append_cons {l : Text} (h : '\n' ∉ l) (s : Text) :
    fullLines (l ++ '\n' :: s) = (l ++ ['\n']) :: fullLines s := by
  rw [fullLines_append h, fullLines, if_pos rfl, List.modifyHead_cons]

theorem paddedLines_fullLines {ls ls' : List Text} (h : SpacedLines ls ls')
    (hn : ∀ l ∈ ls, '\n' ∉ l) :
    PaddedLines (fullLines (unlines ls)) (fullLines (unlines ls')) := by
  have hspaced : ∀ {l l' z : Text}, '\n' ∉ l → IsLineEnd z →
      (l' = l ∨ l' = l ++ [' '] ∧ trimStart l ≠ "request".toList) →
      '\n' ∉ l' ∧ Padded true (l ++ z) (l' ++ z) ∧
        startsRequest (l ++ z) = startsRequest (l' ++ z) := by
    intro l l' z hl hz hs
    rcases hs with rfl | ⟨rfl, hne⟩
    · exact ⟨hl, .refl true _, rfl⟩
    · rw [List.append_assoc, List.singleton_append]
      refine ⟨by simp [hl], .of_space l ?_, (startsRequest_space hz hne).symm⟩
      exact hz.of_startsLine
  induction h with
  | nil => exact .single (.refl true _) rfl
  | @cons l l' ls ls' hs h ih =>
    have hl := hn l List.mem_cons_self
    cases h with
    | nil =>
      obtain ⟨hl', hp, hr⟩ := hspaced (z := []) hl (.inl rfl) hs
      simp only [List.append_nil] at hp hr
      rw [unlines_singleton, unlines_singleton, fullLines_of_not_mem hl, fullLines_of_not_mem hl']
      exact .single hp hr
    | @cons k k' ks ks' hk h =>
      obtain ⟨hl', -, hr⟩ := hspaced (z := ['\n']) hl (.inr rfl) hs
      have hp : Padded false (l ++ ['\n']) (l' ++ ['\n']) := by
        rcases hs with rfl | ⟨rfl, -⟩
        · exact .refl false _
        · rw [List.append_assoc]
          exact (Padded.refl false l).append (.newline .nil)
      rw [unlines_cons_cons, unlines_cons_cons, fullLines_append_cons hl,
        fullLines_append_cons hl']
      exact .cons hp hr (ih fun m hm => hn m (List.mem_cons_of_mem _ hm))

/-- **Parts of a text** whose lines get spaces at their ends, and what stands before them. -/
theorem paddedTexts_assertionSpans {ls ls' : List Text} (h : SpacedLines ls ls')
    (hn : ∀ l ∈ ls, '\n' ∉ l) : Padded false (preamble (unlines ls)) (preamble (unlines ls')) ∧
      PaddedTexts true (assertionSpans (unlines ls)) (assertionSpans (unlines ls')) := by
  have hp := paddedLines_fullLines h hn
  have hcount : requestLines (unlines ls) = requestLines (unlines ls') := hp.length_filter_eq
  by_cases hlt : requestLines (unlines ls) < 2
  · have hflat := hp.flatten
    rw [flatten_fullLines, flatten_fullLines] at hflat
    rw [preamble_of_lt hlt, preamble_of_lt (hcount ▸ hlt), assertionSpans_of_lt hlt,
      assertionSpans_of_lt (hcount ▸ hlt)]
    exact ⟨.nil, .single hflat⟩
  · have hle := Nat.not_lt.1 hlt
    rw [preamble_of_le hle, preamble_of_le (hcount ▸ hle), assertionSpans_of_le hle,
      assertionSpans_of_le (hcount ▸ hle)]
    exact ⟨hp.flatten_takeWhile (dropWhile_startsRequest_ne_nil hle), hp.dropWhile.requestSpans⟩

end SpecHarvest
