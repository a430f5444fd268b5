import SpecHarvest.Proofs.Assertion.Padding
import SpecHarvest.Proofs.Bytes.Comment

/-!
# The parts of a text by byte offsets

The lines that make a request are told by the offsets at which they start, each the sum of the widths
of the lines before it and of one byte for every line feed. The parts are the slices between two
successive offsets.

`startsOf` are these offsets for lines that hold their line feeds; there every one of them is a
boundary before the lines that follow (`spansFrom_at`). `splitAssertions_eq`: the slices are the
parts that `splitAssertions?` yields.
-/

namespace SpecHarvest.Bytes

open Text Source

/-- The offsets of the lines that make a request; the first line starts at `offset`. -/
def requestOffsets (offset : Nat) : List Text → Checked (List Nat)
  | [] => return []
  | line :: lines => do
    let full ← add (width line) 1
    let next ← add offset full
    let starts ← requestOffsets next lines
    return if startsRequest line then offset :: starts else starts

/-- The texts between successive offsets of `starts`, from the one with an index on. -/
def spansFrom (s : Text) (starts : List Nat) (i : Nat) : List Nat → Checked (List Text)
  | [] => return []
  | start :: more => do
    let next ← add i 1
    let span ← slice s start (starts[next]?.getD (width s))
    return span :: (← spansFrom s starts (i + 1) more)

/-- The parts between the offsets, or the whole text if there are fewer than two. -/
def spansAt (s : Text) (starts : List Nat) : Checked (List Text) :=
  if starts.length < 2 then return [s] else spansFrom s starts 0 starts

/-- The parts of a text, unless one of them writes. -/
def splitAssertions (s : Text) : Checked (Option (List Text)) := do
  let starts ← requestOffsets 0 (lines s)
  let spans ← spansAt s starts
  return if spans.any isMutating then none else some spans

/-! ## Offsets of full lines -/

/-- The offsets of the lines that make a request, of lines that hold their line feeds. -/
def startsOf (offset : Nat) : List Text → List Nat
  | [] => []
  | line :: lines =>
    if startsRequest line then offset :: startsOf (offset + width line) lines
    else startsOf (offset + width line) lines

theorem requestOffsets_eq {ls : List Text} {offset : Nat} (hne : ls ≠ [])
    (hn : ∀ l ∈ ls, '\n' ∉ l) (hw : offset + width (unlines ls) + 1 < 2 ^ 32) :
    requestOffsets offset ls = .ok (startsOf offset (fullLines (unlines ls))) := by
  induction ls generalizing offset with
  | nil => exact absurd rfl hne
  | cons l ls ih =>
    have hl := hn l (by simp)
    cases ls with
    | nil =>
      rw [unlines_singleton] at hw ⊢
      rw [fullLines_of_not_mem hl, requestOffsets, add_of_lt (by omega), ok_bind,
        add_of_lt (by omega), ok_bind]
      rfl
    | cons k ls =>
      rw [unlines_cons_cons] at hw ⊢
      simp only [width_append, width_cons, show '\n'.utf8Size = 1 from rfl] at hw
      rw [fullLines_append_cons hl, requestOffsets, add_of_lt (by omega), ok_bind,
        add_of_lt (by omega), ok_bind, ih (by simp) (fun m hm => hn m (by simp [hm])) (by omega),
        ok_bind, startsOf, startsRequest_newline, width_append]
      rfl

theorem length_startsOf (offset : Nat) (ls : List Text) :
    (startsOf offset ls).length = (ls.filter startsRequest).length := by
  induction ls generalizing offset with
  | nil => rfl
  | cons l ls ih =>
    rw [startsOf, List.filter_cons]
    split
    · rw [List.length_cons, List.length_cons, ih]
    · exact ih _

/-- The next offset, or else the end, is where the lines before it end. -/
theorem head?_startsOf (offset : Nat) (ls : List Text) :
    (startsOf offset ls).head?.getD (offset + width ls.flatten) =
      offset + width (ls.takeWhile (!startsRequest ·)).flatten := by
  induction ls generalizing offset with
  | nil => rfl
  | cons l ls ih =>
    rw [startsOf, List.takeWhile_cons]
    cases startsRequest l with
    | true => rfl
    | false =>
      have := ih (offset + width l)
      simp only [Bool.false_eq_true, if_false, Bool.not_false, if_true, List.flatten_cons,
        width_append, ← Nat.add_assoc]
      exact this

theorem length_fullLines_le (s : Text) : (fullLines s).length ≤ width s + 1 := by
  induction s with
  | nil => exact Nat.le_refl _
  | cons c s ih =>
    have := c.utf8Size_pos
    rw [fullLines, width_cons]
    split
    · rw [List.length_cons]
      omega
    · rw [List.length_modifyHead]
      omega

/-! ## The parts -/

theorem spansFrom_at {s : Text} {done starts : List Nat} {ls : List Text} {offset : Nat}
    (h : At s offset ls.flatten) (hstarts : starts = done ++ startsOf offset ls)
    (hlen : starts.length < 2 ^ 32) : spansFrom s starts done.length (startsOf offset ls) =
      .ok (requestSpans (ls.dropWhile (!startsRequest ·))) := by
  induction ls generalizing done offset with
  | nil => rw [startsOf, spansFrom, List.dropWhile_nil, requestSpans]; rfl
  | cons l ls ih =>
    rw [List.flatten_cons] at h
    rw [startsOf] at hstarts ⊢
    rw [List.dropWhile_cons]
    cases hl : startsRequest l with
    | false =>
      simp only [hl, Bool.false_eq_true, if_false] at hstarts
      exact ih h.append hstarts
    | true =>
      simp only [hl, if_true] at hstarts
      have hnext : starts = (done ++ [offset]) ++ startsOf (offset + width l) ls := by
        simpa using hstarts
      have hlt : done.length + 1 < 2 ^ 32 := by
        rw [hstarts, List.length_append, List.length_cons] at hlen
        omega
      have hend : starts[done.length + 1]?.getD (width s) =
          offset + width (l ++ (ls.takeWhile (!startsRequest ·)).flatten) := by
        have hget : starts[done.length + 1]? = (startsOf (offset + width l) ls).head? := by
          rw [hnext, List.getElem?_append_right (by simp), List.head?_eq_getElem?]
          simp
        rw [hget, ← h.append.add_width, head?_startsOf, width_append, Nat.add_assoc]
      have hslice : At s offset ((l ++ (ls.takeWhile (!startsRequest ·)).flatten) ++
          (ls.dropWhile (!startsRequest ·)).flatten) := by
        rw [List.append_assoc, ← List.flatten_append, List.takeWhile_append_dropWhile]
        exact h
      have hrest := ih h.append hnext
      rw [List.length_append, List.length_singleton] at hrest
      rw [if_pos rfl, spansFrom, add_of_lt hlt, ok_bind, hend, hslice.slice rfl, ok_bind, hrest,
        Bool.not_true, if_neg Bool.false_ne_true, requestSpans]
      rfl

theorem requestOffsets_lines {s : Text} (hs : Small s) :
    requestOffsets 0 (lines s) = .ok (startsOf 0 (fullLines s)) := by
  have hsmall : width s < 2 ^ 31 := hs
  have hw : 0 + width (unlines (lines s)) + 1 < 2 ^ 32 := by
    rw [unlines_lines]
    omega
  have := requestOffsets_eq (lines_ne_nil s) (fun l hl => not_mem_of_mem_lines hl) hw
  rwa [unlines_lines] at this

theorem spansAt_startsOf {s : Text} (hs : Small s) :
    spansAt s (startsOf 0 (fullLines s)) = .ok (assertionSpans s) := by
  have hsmall : width s < 2 ^ 31 := hs
  have hlen : (startsOf 0 (fullLines s)).length < 2 ^ 32 := by
    have := List.length_filter_le startsRequest (fullLines s)
    have := length_fullLines_le s
    rw [length_startsOf]
    omega
  have hat : At s 0 (fullLines s).flatten := by
    rw [flatten_fullLines]
    exact at_zero s
  have hspans : spansFrom s (startsOf 0 (fullLines s)) ([] : List Nat).length
      (startsOf 0 (fullLines s)) = _ := spansFrom_at hat rfl hlen
  rw [spansAt, length_startsOf]
  by_cases h : requestLines s < 2
  · rw [assertionSpans_of_lt h]
    exact if_pos h
  · rw [assertionSpans_of_le (Nat.not_lt.1 h)]
    exact (if_neg h).trans hspans

/-- **A text is cut into its parts without a fault.** -/
theorem splitAssertions_eq {s : Text} (hs : Small s) :
    splitAssertions s = .ok (splitAssertions? s) := by
  rw [splitAssertions, requestOffsets_lines hs, ok_bind, spansAt_startsOf hs]
  rfl

theorem length_requestSpans_le (ls : List Text) : (requestSpans ls).length ≤ ls.length := by
  fun_induction requestSpans ls with
  | case1 => exact Nat.le_refl _
  | case2 line lines ih =>
    have := (List.dropWhile_suffix (!startsRequest ·) (l := lines)).length_le
    rw [List.length_cons, List.length_cons]
    omega

theorem length_assertionSpans_le (s : Text) : (assertionSpans s).length ≤ width s + 1 := by
  by_cases h : requestLines s < 2
  · rw [assertionSpans_of_lt h, List.length_singleton]
    exact Nat.le_add_left _ _
  · rw [assertionSpans_of_le (Nat.not_lt.1 h)]
    have := (List.dropWhile_suffix (!startsRequest ·) (l := fullLines s)).length_le
    exact (length_requestSpans_le _).trans (this.trans (length_fullLines_le s))

theorem sublist_of_mem_assertionSpans {s p : Text} (h : p ∈ assertionSpans s) : p.Sublist s := by
  have hsub : (assertionSpans s).flatten.Sublist s := by
    have := List.sublist_append_right (preamble s) (assertionSpans s).flatten
    rwa [preamble_append_spans] at this
  exact (List.sublist_flatten_of_mem h).trans hsub

theorem eq_of_splitAssertions? {s : Text} {spans : List Text} (h : splitAssertions? s = some spans) :
    spans = assertionSpans s := by
  unfold splitAssertions? at h
  simp only at h
  split at h
  · cases h
  · exact (Option.some.inj h).symm

end SpecHarvest.Bytes
