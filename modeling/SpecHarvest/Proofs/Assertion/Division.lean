import SpecHarvest.Proofs.Assertion.Padding

/-!
# The one way to divide a text

The parts of a text are told by what they are, not by how they are found: `Division` says of some
texts that they are the parts of a text.

* `IsAssertion`: a text whose first line makes a request, and no other.
* `division_assertionSpans`: the parts that `assertionSpans` yields are a division.
* `Division.eq_assertionSpans`: there is no other division.
* `splitAssertions?_unique`: a text is refused if a part writes, and else its parts are the result.

The parts are cut from lines with their line feeds, and `Division` speaks of lines without them.
`map_startsRequest_fullLines` takes a statement about requests from the one to the other.
-/

namespace SpecHarvest

open Text Source

/-- A text whose first line makes a request, and no other. -/
def IsAssertion (p : Text) : Prop :=
  ∃ line rest, lines p = line :: rest ∧ startsRequest line = true ∧
    ∀ l ∈ rest, startsRequest l = false

/-- What the parts of a text are. Fewer than two lines that make a request leave the text whole.
Else what stands before the first of these lines, `front`, is left out; the rest is cut where a line
starts, and every piece is an assertion. -/
inductive Division (s : Text) : List Text → Prop
  | whole : (lines s).countP startsRequest < 2 → Division s [s]
  | cut {front : Text} {parts : List Text} : 2 ≤ (lines s).countP startsRequest →
    s = front ++ parts.flatten → front = [] ∨ EndsLine front →
    (∀ l ∈ lines front, startsRequest l = false) → parts ≠ [] → LinesEnd parts →
    (∀ p ∈ parts, p ≠ [] ∧ IsAssertion p) → Division s parts

/-! ## Lines with and without their line feeds -/

theorem startsRequest_nil : startsRequest [] = false := by decide

theorem map_startsRequest_unlines {ls : List Text} (hne : ls ≠ []) (h : ∀ l ∈ ls, '\n' ∉ l) :
    (fullLines (unlines ls)).map startsRequest = ls.map startsRequest := by
  induction ls with
  | nil => exact absurd rfl hne
  | cons l ls ih =>
    have hl := h l List.mem_cons_self
    cases ls with
    | nil => rw [unlines_singleton, fullLines_of_not_mem hl]
    | cons k ls =>
      rw [unlines_cons_cons, fullLines_append_cons hl, List.map_cons, startsRequest_newline,
        ih (List.cons_ne_nil k ls) fun m hm => h m (List.mem_cons_of_mem _ hm),
        List.map_cons (l := k :: ls)]

/-- **Line by line**, the requests are the same with the line feeds and without. -/
theorem map_startsRequest_fullLines (s : Text) :
    (fullLines s).map startsRequest = (lines s).map startsRequest := by
  have := map_startsRequest_unlines (lines_ne_nil s) fun l hl => not_mem_of_mem_lines hl
  rwa [unlines_lines] at this

theorem requestLines_eq (s : Text) : requestLines s = (lines s).countP startsRequest := by
  have h : ∀ ls : List Text, ls.countP startsRequest = (ls.map startsRequest).countP id :=
    fun ls => by rw [List.countP_map, Function.id_comp]
  rw [requestLines, ← List.countP_eq_length_filter, h, h, map_startsRequest_fullLines]

theorem forall_startsRequest_lines {s : Text} : (∀ l ∈ lines s, startsRequest l = false) ↔
    ∀ l ∈ fullLines s, startsRequest l = false := by
  have h : ∀ ls : List Text, (∀ l ∈ ls, startsRequest l = false) ↔
      ∀ b ∈ ls.map startsRequest, b = false := by simp
  rw [h, h, map_startsRequest_fullLines]

theorem isAssertion_iff {p : Text} : IsAssertion p ↔
    ∃ line rest, fullLines p = line :: rest ∧ startsRequest line = true ∧
      ∀ l ∈ rest, startsRequest l = false := by
  have h : ∀ ls : List Text, (∃ line rest, ls = line :: rest ∧ startsRequest line = true ∧
      ∀ l ∈ rest, startsRequest l = false) ↔
      ∃ bs, ls.map startsRequest = true :: bs ∧ ∀ b ∈ bs, b = false := by
    intro ls
    cases ls <;> simp
  rw [IsAssertion, h, h, map_startsRequest_fullLines]

/-! ## Cuts where a line starts -/

theorem exists_fullLines_append {x : Text} (hx : x = [] ∨ EndsLine x) :
    ∃ ls, fullLines x = ls ++ [[]] ∧ ∀ y, fullLines (x ++ y) = ls ++ fullLines y := by
  induction x with
  | nil => exact ⟨[], rfl, fun y => rfl⟩
  | cons c x ih =>
    obtain ⟨ls, hls, happ⟩ := ih (endsLine_of_append (x := [c]) hx)
    by_cases hc : c = '\n'
    · exact ⟨['\n'] :: ls, by simp [fullLines, hc, hls], fun y => by simp [fullLines, hc, happ]⟩
    · cases ls with
      | cons l ls =>
        exact ⟨(c :: l) :: ls, by simp [fullLines, hc, hls],
          fun y => by simp [fullLines, hc, happ]⟩
      | nil =>
        -- nothing follows, so the text ends with a character that is no line feed
        have hx' := flatten_fullLines x
        rw [hls] at hx'
        subst hx'
        simp [EndsLine, hc] at hx

theorem fullLines_tail {s l : Text} {ls : List Text} (h : fullLines s = l :: ls) (hne : ls ≠ []) :
    (∃ x, '\n' ∉ x ∧ l = x ++ ['\n']) ∧ fullLines ls.flatten = ls := by
  induction s generalizing l with
  | nil =>
    obtain ⟨-, rfl⟩ := List.cons.inj h
    exact absurd rfl hne
  | cons c s ih =>
    obtain ⟨k, ks, hk⟩ := exists_fullLines_eq_cons s
    by_cases hc : c = '\n'
    · rw [fullLines, if_pos hc] at h
      obtain ⟨rfl, rfl⟩ := List.cons.inj h
      exact ⟨⟨[], List.not_mem_nil, rfl⟩, by rw [flatten_fullLines]⟩
    · rw [fullLines, if_neg hc, hk, List.modifyHead_cons] at h
      obtain ⟨rfl, rfl⟩ := List.cons.inj h
      obtain ⟨⟨x, hx, rfl⟩, hrest⟩ := ih hk
      exact ⟨⟨c :: x, by simp [hx, Ne.symm hc], rfl⟩, hrest⟩

/-- **Full lines cut in two** are the full lines of two texts. -/
theorem fullLines_flatten_append {s : Text} {front back : List Text}
    (h : fullLines s = front ++ back) (hne : back ≠ []) :
    fullLines front.flatten = front ++ [[]] ∧ fullLines back.flatten = back := by
  induction front generalizing s with
  | nil => exact ⟨rfl, by rw [← List.nil_append back, ← h, flatten_fullLines]⟩
  | cons l front ih =>
    obtain ⟨⟨x, hx, rfl⟩, hrest⟩ := fullLines_tail h (by simp [hne])
    obtain ⟨hf, hb⟩ := ih hrest
    refine ⟨?_, hb⟩
    rw [List.flatten_cons, List.append_assoc, List.singleton_append, fullLines_append_cons hx, hf]
    rfl

/-! ## The parts are a division -/

theorem startsRequest_of_mem_takeWhile {ls : List Text} :
    ∀ l ∈ ls.takeWhile (!startsRequest ·), startsRequest l = false := by
  intro l hl
  simpa using List.mem_takeWhile_imp hl

theorem isAssertion_of_mem_requestSpans {ls : List Text} (hls : fullLines ls.flatten = ls)
    (hhead : ∀ l, ls.head? = some l → startsRequest l = true) :
    ∀ p ∈ requestSpans ls, IsAssertion p := by
  fun_induction requestSpans ls with
  | case1 => simp
  | case2 line lines ih =>
    have hline := hhead line rfl
    have hsplit : fullLines (line :: lines).flatten =
        (line :: lines.takeWhile (!startsRequest ·)) ++ lines.dropWhile (!startsRequest ·) := by
      rw [List.cons_append, List.takeWhile_append_dropWhile, hls]
    have hrest : ∀ l ∈ lines.takeWhile (!startsRequest ·), startsRequest l = false :=
      startsRequest_of_mem_takeWhile
    intro p hp
    by_cases hd : lines.dropWhile (!startsRequest ·) = []
    · rw [hd, requestSpans, List.mem_singleton] at hp
      rw [hd, List.append_nil] at hsplit
      have hflat := flatten_fullLines (line :: lines).flatten
      rw [hsplit, List.flatten_cons, ← hp] at hflat
      rw [← hflat] at hsplit
      exact isAssertion_iff.2 ⟨line, _, hsplit, hline, hrest⟩
    · obtain ⟨hfront, hback⟩ := fullLines_flatten_append hsplit hd
      rcases List.mem_cons.1 hp with rfl | hp
      · refine isAssertion_iff.2 ⟨line, _, hfront, hline, fun l hl => ?_⟩
        rcases List.mem_append.1 hl with hl | hl
        · exact hrest l hl
        · rw [List.mem_singleton.1 hl, startsRequest_nil]
      · exact ih hback startsRequest_head_dropWhile p hp

theorem IsAssertion.ne_nil {p : Text} (h : IsAssertion p) : p ≠ [] := by
  rintro rfl
  obtain ⟨line, rest, hlines, hline, -⟩ := h
  obtain ⟨rfl, -⟩ := List.cons.inj (show [[]] = line :: rest from hlines)
  rw [startsRequest_nil] at hline
  cases hline

/-- **The parts of a text are a division of it.** -/
theorem division_assertionSpans (s : Text) : Division s (assertionSpans s) := by
  rcases Nat.lt_or_ge (requestLines s) 2 with h | h
  · rw [assertionSpans_of_lt h]
    exact .whole (by rwa [← requestLines_eq])
  · have hsplit := (List.takeWhile_append_dropWhile (p := (!startsRequest ·))
      (l := fullLines s)).symm
    obtain ⟨hfront, hback⟩ := fullLines_flatten_append hsplit (dropWhile_startsRequest_ne_nil h)
    refine .cut (by rwa [← requestLines_eq]) (preamble_append_spans s).symm (preamble_endsLine s)
      (forall_startsRequest_lines.2 fun l hl => ?_) (assertionSpans_ne_nil s)
      (linesEnd_assertionSpans s) fun p hp => ?_
    · rw [preamble_of_le h, hfront] at hl
      rcases List.mem_append.1 hl with hl | hl
      · exact startsRequest_of_mem_takeWhile l hl
      · rw [List.mem_singleton.1 hl, startsRequest_nil]
    · rw [assertionSpans_of_le h] at hp
      have hp := isAssertion_of_mem_requestSpans hback startsRequest_head_dropWhile p hp
      exact ⟨hp.ne_nil, hp⟩

/-! ## There is no other -/

theorem dropWhile_of_head {ls : List Text}
    (h : ∀ l, ls.head? = some l → startsRequest l = true) :
    ls.takeWhile (!startsRequest ·) = [] ∧ ls.dropWhile (!startsRequest ·) = ls := by
  cases ls with
  | nil => exact ⟨rfl, rfl⟩
  | cons l ls => simp [h l rfl]

theorem requestSpans_cons_append {line : Text} {rest more : List Text}
    (hrest : ∀ l ∈ rest, startsRequest l = false)
    (hmore : ∀ l, more.head? = some l → startsRequest l = true) :
    requestSpans (line :: (rest ++ more)) = (line ++ rest.flatten) :: requestSpans more := by
  have hpos : ∀ l ∈ rest, (!startsRequest l) = true := fun l hl => by simp [hrest l hl]
  obtain ⟨htake, hdrop⟩ := dropWhile_of_head hmore
  rw [requestSpans, List.takeWhile_append_of_pos hpos, List.dropWhile_append_of_pos hpos, htake,
    hdrop, List.append_nil]

theorem IsAssertion.exists_fullLines_append {p : Text} (h : IsAssertion p) (hp : EndsLine p) :
    ∃ line rest, startsRequest line = true ∧ (∀ l ∈ rest, startsRequest l = false) ∧
      line ++ rest.flatten = p ∧ ∀ y, fullLines (p ++ y) = line :: (rest ++ fullLines y) := by
  obtain ⟨line, all, hl, hline, hall⟩ := isAssertion_iff.1 h
  obtain ⟨ls, hls, happ⟩ := SpecHarvest.exists_fullLines_append (.inr hp)
  rw [hl] at hls
  cases ls with
  | nil =>
    obtain ⟨rfl, -⟩ := List.cons.inj (show line :: all = [[]] from hls)
    rw [startsRequest_nil] at hline
    cases hline
  | cons k rest =>
    obtain ⟨rfl, hrest⟩ := List.cons.inj (show line :: all = k :: (rest ++ [[]]) from hls)
    subst hrest
    refine ⟨line, rest, hline, fun l hl => hall l (List.mem_append_left _ hl), ?_, happ⟩
    have hflat := flatten_fullLines p
    rwa [hl, List.flatten_cons, List.flatten_append, List.flatten_singleton,
      List.append_nil] at hflat

theorem head_fullLines_flatten {p : Text} {ps : List Text} (hp : IsAssertion p)
    (hends : LinesEnd (p :: ps)) :
    ∀ l, (fullLines (p :: ps).flatten).head? = some l → startsRequest l = true := by
  intro l hhead
  cases ps with
  | nil =>
    obtain ⟨line, rest, hl, hline, -⟩ := isAssertion_iff.1 hp
    rw [List.flatten_singleton, hl] at hhead
    obtain rfl := Option.some.inj hhead
    exact hline
  | cons q ps =>
    obtain ⟨line, rest, hline, -, -, happ⟩ :=
      hp.exists_fullLines_append (hends.head (List.cons_ne_nil q ps))
    rw [List.flatten_cons, happ] at hhead
    obtain rfl := Option.some.inj hhead
    exact hline

/-- **Assertions put together are told apart again.** -/
theorem requestSpans_flatten {parts : List Text} (hne : parts ≠ []) (hends : LinesEnd parts)
    (hparts : ∀ p ∈ parts, IsAssertion p) : requestSpans (fullLines parts.flatten) = parts := by
  induction parts with
  | nil => exact absurd rfl hne
  | cons p ps ih =>
    have hp := hparts p List.mem_cons_self
    cases ps with
    | nil =>
      obtain ⟨line, rest, hl, -, hrest⟩ := isAssertion_iff.1 hp
      have hflat : line ++ rest.flatten = p := by
        rw [← List.flatten_cons, ← hl, flatten_fullLines]
      have hspans : requestSpans (line :: (rest ++ [])) = (line ++ rest.flatten) :: requestSpans [] :=
        requestSpans_cons_append hrest (by simp)
      rw [List.append_nil, hflat, requestSpans] at hspans
      rw [List.flatten_singleton, hl, hspans]
    | cons q ps =>
      obtain ⟨line, rest, -, hrest, hflat, happ⟩ :=
        hp.exists_fullLines_append (hends.head (List.cons_ne_nil q ps))
      have hparts' : ∀ r ∈ q :: ps, IsAssertion r :=
        fun r hr => hparts r (List.mem_cons_of_mem _ hr)
      have hmore := head_fullLines_flatten (hparts' q List.mem_cons_self) hends.tail
      rw [List.flatten_cons, happ, requestSpans_cons_append hrest hmore, hflat,
        ih (List.cons_ne_nil q ps) hends.tail hparts']

/-- **There is one division of a text**, its parts. -/
theorem Division.eq_assertionSpans {s : Text} {parts : List Text} (h : Division s parts) :
    parts = assertionSpans s := by
  cases h with
  | whole h => rw [assertionSpans_of_lt (by rwa [requestLines_eq])]
  | @cut front parts h hs hends hfront hne hparts hall =>
    obtain ⟨ls, hls, happ⟩ := exists_fullLines_append hends
    have hpos : ∀ l ∈ ls, (!startsRequest l) = true := fun l hl => by
      rw [forall_startsRequest_lines.1 hfront l (by simp [hls, hl]), Bool.not_false]
    obtain ⟨p, ps, rfl⟩ := List.exists_cons_of_ne_nil hne
    have hhead := head_fullLines_flatten (hall p List.mem_cons_self).2 hparts
    rw [assertionSpans_of_le (by rwa [requestLines_eq]), hs, happ,
      List.dropWhile_append_of_pos hpos, (dropWhile_of_head hhead).2,
      requestSpans_flatten hne hparts fun q hq => (hall q hq).2]

/-! ## Accepted and refused texts -/

/-- **A text is divided in one way.** It is refused if a part of this division writes; else the
result is the division, and no part writes. -/
theorem splitAssertions?_unique (s : Text) : ∃ parts, Division s parts ∧
    (∀ other, Division s other → other = parts) ∧
    (splitAssertions? s = none ↔ ∃ p ∈ parts, isMutating p = true) ∧
    ∀ spans, splitAssertions? s = some spans ↔
      spans = parts ∧ ∀ p ∈ parts, isMutating p = false := by
  refine ⟨assertionSpans s, division_assertionSpans s, fun other h => h.eq_assertionSpans, ?_, ?_⟩
  · simp [splitAssertions?]
  · intro spans
    simp only [splitAssertions?]
    split
    · next h =>
      obtain ⟨p, hp, hm⟩ := List.any_eq_true.1 h
      simp only [reduceCtorEq, false_iff, not_and]
      intro _ hall
      rw [hall p hp] at hm
      cases hm
    · next h =>
      have hall : ∀ p ∈ assertionSpans s, isMutating p = false := by simpa using h
      rw [Option.some.injEq, eq_comm]
      exact (and_iff_left hall).symm

example : splitAssertions? "let é = 1\n get \"/ü\"\n\nrequest x\n".toList =
    some [" get \"/ü\"\n\n".toList, "request x\n".toList] := by
  decide +kernel

end SpecHarvest
