import SpecHarvest.Proofs.Assertion.Span
import SpecHarvest.Proofs.Text.Collapse

/-!
# Texts that write

`isMutating` looks for a helper or a request that writes at each word boundary. Its reader,
`writeHere`, may go on over line feeds between `request` and the method.

* `isMutating_append`: a character that is no word character divides the search, unless a method
  that writes follows it (`NoMethodAhead`).
* `isMutating_preamble_or_spans`: nothing that writes lies across two parts of a text, since no line
  that makes a request starts with a method.
* `isMutating_of_collapse`: collapsing white space brings no writing about.
-/

namespace SpecHarvest

open Text

/-! ## The reader -/

/-- The words that `writeHere` looks for. -/
def writeWords : List Text := ["post".toList, "patch".toList, "request".toList] ++ writeMethods

theorem isWordChar_of_mem_writeWords : ∀ w ∈ writeWords, ∀ c ∈ w, isWordChar c = true := by
  have h : writeWords.all (·.all isWordChar) = true := by decide +kernel
  intro w hw
  exact List.all_eq_true.1 (List.all_eq_true.1 h w hw)

theorem isBlank_of_mem_writeWords : ∀ w ∈ writeWords, ∀ c ∈ w, isBlank c = false := by
  intro w hw c hc
  have h := isWordChar_of_mem_writeWords w hw c hc
  cases hb : isBlank c with
  | false => rfl
  | true => simp [isWordChar_of_isBlank hb] at h

theorem not_mem_writeWords {d : Char} (hd : isWordChar d = false) : ∀ w ∈ writeWords, d ∉ w := by
  intro w hw hm
  simp [isWordChar_of_mem_writeWords w hw d hm] at hd

theorem wordHere_nil_of_mem : ∀ {m : Text}, m ∈ writeMethods → wordHere m [] = false := by
  decide

theorem mem_writeWords {m : Text} (h : m ∈ writeMethods) : m ∈ writeWords := by
  simp [writeWords, h]

theorem writeRequestHere_iff {s : Text} : writeRequestHere s = true ↔
    ∃ c r, s = "request".toList ++ c :: r ∧ isBlank c = true ∧
      ∃ m ∈ writeMethods, wordHere m (trimStart r) = true := by
  unfold writeRequestHere
  constructor
  · intro h
    split at h
    · rename_i c r hr
      simp only [Bool.and_eq_true, List.any_eq_true] at h
      exact ⟨c, r, after?_eq_some_iff.1 hr, h⟩
    · cases h
  · rintro ⟨c, r, hs, hc, m, hm, hw⟩
    rw [after?_eq_some_iff.2 hs]
    simp only [Bool.and_eq_true, List.any_eq_true]
    exact ⟨hc, m, hm, hw⟩

theorem writeHere_iff {s : Text} : writeHere s = true ↔ wordHere "post".toList s = true ∨
    wordHere "patch".toList s = true ∨ writeRequestHere s = true := by
  simp only [writeHere, Bool.or_eq_true, or_assoc]

theorem exists_cons_of_writeHere {s : Text} (h : writeHere s = true) :
    ∃ d r, s = d :: r ∧ isBlank d = false := by
  rcases writeHere_iff.1 h with h | h | h
  · obtain ⟨r, rfl, -⟩ := wordHere_iff.1 h
    exact ⟨'p', _, rfl, by decide⟩
  · obtain ⟨r, rfl, -⟩ := wordHere_iff.1 h
    exact ⟨'p', _, rfl, by decide⟩
  · obtain ⟨c, r, rfl, -⟩ := writeRequestHere_iff.1 h
    exact ⟨'r', _, rfl, by decide⟩

/-! ## Texts put together -/

/-- No method that writes comes first in a text. -/
def NoMethodAhead (s : Text) : Prop := ∀ m ∈ writeMethods, wordHere m (trimStart s) = false

theorem wordHere_cons_of_ne {m : Text} (hm : m ∈ writeMethods) {c : Char} (hc : c ≠ 'm')
    (s : Text) : wordHere m (c :: s) = false := by
  obtain ⟨w, rfl⟩ : ∃ w, m = 'm' :: w := by
    simp only [writeMethods, List.mem_cons, List.not_mem_nil, or_false] at hm
    rcases hm with rfl | rfl | rfl | rfl <;> exact ⟨_, rfl⟩
  simp [wordHere, after?, Ne.symm hc]

theorem noMethodAhead_cons {c : Char} (hb : isBlank c = false) (hc : c ≠ 'm') (s : Text) :
    NoMethodAhead (c :: s) := by
  intro m hm
  rw [trimStart, List.dropWhile_cons_of_neg (by simp [hb])]
  exact wordHere_cons_of_ne hm hc s

/-- The methods in a text are those before a character that is no word character, if none comes
right after that. -/
theorem wordHere_trimStart_append {m x y : Text} {d : Char} (hd : isWordChar d = false)
    (hm : m ∈ writeMethods) (hy : NoMethodAhead (d :: y)) :
    wordHere m (trimStart (x ++ d :: y)) = wordHere m (trimStart x) := by
  have hdm : d ∉ m := not_mem_writeWords hd m (mem_writeWords hm)
  rw [trimStart_append]
  split
  · rename_i hx
    rw [hy m hm, hx, wordHere_nil_of_mem hm]
  · exact wordHere_append hd hdm

theorem writeRequestHere_append {x y : Text} {d : Char} (hd : isWordChar d = false)
    (hy : NoMethodAhead (d :: y)) : writeRequestHere (x ++ d :: y) = writeRequestHere x := by
  have hdr : d ∉ "request".toList := not_mem_writeWords hd _ (by decide)
  rw [Bool.eq_iff_iff, writeRequestHere_iff, writeRequestHere_iff]
  constructor
  · rintro ⟨c, r, hs, hc, m, hm, hw⟩
    rcases List.append_eq_append_iff.1 hs with ⟨a, ha, hr⟩ | ⟨a, ha, hr⟩
    · cases a with
      | nil =>
        -- the keyword ends right before `d`, and no method follows
        obtain ⟨rfl, rfl⟩ := List.cons.inj hr
        have := hy m hm
        rw [trimStart, List.dropWhile_cons_of_pos hc, ← trimStart] at this
        simp [this] at hw
      | cons e a =>
        obtain ⟨rfl, -⟩ := List.cons.inj hr
        exact absurd (ha ▸ by simp) hdr
    · cases a with
      | nil =>
        obtain ⟨rfl, rfl⟩ := List.cons.inj hr
        have := hy m hm
        rw [trimStart, List.dropWhile_cons_of_pos hc, ← trimStart] at this
        simp [this] at hw
      | cons e a =>
        rw [List.cons_append] at hr
        obtain ⟨rfl, rfl⟩ := List.cons.inj hr
        rw [wordHere_trimStart_append hd hm hy] at hw
        exact ⟨c, a, ha, hc, m, hm, hw⟩
  · rintro ⟨c, r, rfl, hc, m, hm, hw⟩
    exact ⟨c, r ++ d :: y, by simp, hc, m, hm, by rwa [wordHere_trimStart_append hd hm hy]⟩

theorem writeHere_append {x y : Text} {d : Char} (hd : isWordChar d = false)
    (hy : NoMethodAhead (d :: y)) : writeHere (x ++ d :: y) = writeHere x := by
  have hne := not_mem_writeWords hd
  simp only [writeHere, wordHere_append hd (hne "post".toList (by decide)),
    wordHere_append hd (hne "patch".toList (by decide)), writeRequestHere_append hd hy]

/-- **The search for writing divided.** -/
theorem isMutating_append {x y : Text} {d : Char} (hd : isWordChar d = false)
    (hy : NoMethodAhead (d :: y)) :
    isMutating (x ++ d :: y) = (isMutating x || isMutating y) :=
  atWordStart_append hd fun _ => writeHere_append hd hy

/-! ## The parts of a text -/

theorem noMethodAhead_of_startsRequest {s : Text} (h : startsRequest s = true) :
    NoMethodAhead ('\n' :: s) := by
  obtain ⟨t, ht, r, hr⟩ := startsRequest_iff.1 h
  intro m hm
  rw [trimStart, List.dropWhile_cons_of_pos (by decide), ← trimStart, hr]
  simp only [requestStarts, List.mem_cons, List.not_mem_nil, or_false] at ht
  rcases ht with rfl | rfl | rfl | rfl <;> exact wordHere_cons_of_ne hm (by decide) _

theorem isMutating_append_part {x y : Text} (hx : x = [] ∨ EndsLine x)
    (hy : startsRequest y = true) : isMutating (x ++ y) = (isMutating x || isMutating y) := by
  rcases hx with rfl | hx
  · rfl
  · obtain ⟨z, rfl⟩ := List.getLast?_eq_some_iff.1 hx
    have hz : isMutating (z ++ ['\n']) = isMutating z := by
      have hn : NoMethodAhead ['\n'] := fun m hm => wordHere_nil_of_mem hm
      rw [isMutating_append (by decide) hn, show isMutating [] = false by decide, Bool.or_false]
    rw [List.append_assoc, List.singleton_append,
      isMutating_append (by decide) (noMethodAhead_of_startsRequest hy), hz]

/-- Parts that start at lines that make a request write one by one. -/
theorem isMutating_append_flatten {x : Text} {ps : List Text} (hx : x = [] ∨ EndsLine x)
    (hp : LinesEnd ps) (hr : ∀ p ∈ ps, startsRequest p = true) :
    isMutating (x ++ ps.flatten) = (isMutating x || ps.any isMutating) := by
  induction ps generalizing x with
  | nil => simp
  | cons p ps ih =>
    rw [List.flatten_cons, List.any_cons]
    cases ps with
    | nil => simp [isMutating_append_part hx (hr p (by simp))]
    | cons q ps =>
      have hp' : x ++ p = [] ∨ EndsLine (x ++ p) := by
        right
        rw [EndsLine, List.getLast?_append, show p.getLast? = _ from hp.head (by simp)]
        rfl
      rw [← List.append_assoc, ih hp' hp.tail fun k hk => hr k (by simp [hk]),
        isMutating_append_part hx (hr p (by simp)), Bool.or_assoc]

/-- **Nothing that writes is cut**: a text writes in its preamble or in one of its parts. -/
theorem isMutating_preamble_or_spans {s : Text} (h : 2 ≤ requestLines s) :
    isMutating s = (isMutating (preamble s) || (assertionSpans s).any isMutating) := by
  rw [← isMutating_append_flatten (preamble_endsLine s) (linesEnd_assertionSpans s)
    fun p hp => startsRequest_of_mem_spans h hp, preamble_append_spans]

/-! ## Collapsed texts -/

theorem writeHere_of_squeeze {s : Text} (h : writeHere (squeeze true s) = true) :
    writeHere s = true := by
  have hne := isBlank_of_mem_writeWords
  rcases writeHere_iff.1 h with h | h | h
  · exact writeHere_iff.2 (.inl (wordHere_of_squeeze (hne _ (by decide)) h))
  · exact writeHere_iff.2 (.inr (.inl (wordHere_of_squeeze (hne _ (by decide)) h)))
  · obtain ⟨c, r, hs, hc, m, hm, hw⟩ := writeRequestHere_iff.1 h
    obtain ⟨t, rfl, ht⟩ := exists_of_squeeze_eq_append (hne _ (by decide)) hs
    obtain ⟨b, u, rfl, hb, -, rfl⟩ := exists_blank_of_squeeze_eq_cons hc ht
    refine writeHere_iff.2 (.inr (.inr (writeRequestHere_iff.2 ⟨b, u, rfl, hb, m, hm, ?_⟩)))
    refine wordHere_of_squeeze (hne m (mem_writeWords hm)) ?_
    rwa [trimStart_squeeze] at hw

/-- **Collapsing brings no writing about.** -/
theorem isMutating_of_collapse {s : Text} (h : isMutating (collapse s) = true) :
    isMutating s = true := by
  obtain ⟨front, rest, hs, hb, hr⟩ := atWordStart_iff.1 h
  obtain ⟨d, r, rfl, hd⟩ := exists_cons_of_writeHere hr
  obtain ⟨x, y, rfl, rfl, hx⟩ := exists_of_collapse_eq_append hd hs
  refine atWordStart_iff.2 ⟨x, d :: y, rfl, ?_, writeHere_of_squeeze ?_⟩
  · have := hx (!isWordChar ·) fun c hc => by simp [isWordChar_of_isBlank hc]
    rwa [boundaryAfter, this] at hb
  · rwa [squeeze_true hd]

end SpecHarvest
