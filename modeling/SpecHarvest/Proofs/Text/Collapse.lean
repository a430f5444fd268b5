import SpecHarvest.Proofs.Text.Blank
import SpecHarvest.Proofs.Text.WordStart

/-!
# Collapsed white space

`collapse` joins the words of a text with single spaces. `squeeze` does the same in one pass over
the characters, which is the form that proofs by induction need.

* `collapse_eq_tail_squeeze`: the two agree, but for the space that `squeeze` puts before the first
  word.
* `squeeze_append_blank`: texts parted by white space are squeezed one by one.
* `exists_of_collapse_eq_append`: a place of the collapsed text is a place of the text, with the
  same character before it up to white space (`SameBefore`), and the same text after it once that
  is squeezed.
* `squeeze_append_cons`: what stands before a character that is not white space keeps the spaces at
  its ends (`tighten`).
-/

namespace SpecHarvest.Text

/-- Every run of white space made one space, and the white space at the end left out. The flag says
that no white space was passed since the last word. -/
def squeeze : (joined : Bool) → Text → Text
  | _, [] => []
  | j, c :: s =>
    if isBlank c then squeeze false s
    else if j then c :: squeeze true s
    else ' ' :: c :: squeeze true s

@[simp] theorem squeeze_nil (j : Bool) : squeeze j [] = [] := rfl

theorem squeeze_blank {c : Char} (h : isBlank c = true) (j : Bool) (s : Text) :
    squeeze j (c :: s) = squeeze false s := by simp [squeeze, h]

theorem squeeze_true {c : Char} (h : isBlank c = false) (s : Text) :
    squeeze true (c :: s) = c :: squeeze true s := by simp [squeeze, h]

theorem squeeze_false {c : Char} (h : isBlank c = false) (s : Text) :
    squeeze false (c :: s) = ' ' :: c :: squeeze true s := by simp [squeeze, h]

/-! ## Collapsing is squeezing -/

theorem exists_pieces_eq_cons (cut : Char → Bool) (s : Text) :
    ∃ p ps, pieces cut s = p :: ps := by
  induction s with
  | nil => exact ⟨[], [], rfl⟩
  | cons c s ih =>
    obtain ⟨p, ps, h⟩ := ih
    by_cases hc : cut c = true
    · exact ⟨[], pieces cut s, by simp [pieces, hc]⟩
    · exact ⟨c :: p, ps, by simp [pieces, hc, h]⟩

theorem pieces_append_cons {cut : Char → Bool} {c : Char} (hc : cut c = true) (s t : Text) :
    pieces cut (s ++ c :: t) = pieces cut s ++ pieces cut t := by
  induction s with
  | nil => simp [pieces, hc]
  | cons d s ih =>
    obtain ⟨p, ps, hp⟩ := exists_pieces_eq_cons cut s
    by_cases hd : cut d = true
    · simp [pieces, hd, ih]
    · simp [pieces, hd, ih, hp]

theorem pieces_of_forall {cut : Char → Bool} {s : Text} (h : ∀ c ∈ s, cut c = false) :
    pieces cut s = [s] := by
  induction s with
  | nil => rfl
  | cons c s ih =>
    rw [List.forall_mem_cons] at h
    simp [pieces, h.1, ih h.2]

theorem eq_false_of_mem_pieces {cut : Char → Bool} {s p : Text} (h : p ∈ pieces cut s) :
    ∀ c ∈ p, cut c = false := by
  induction s generalizing p with
  | nil =>
    obtain rfl := List.mem_singleton.1 h
    simp
  | cons d s ih =>
    obtain ⟨q, ps, hq⟩ := exists_pieces_eq_cons cut s
    rw [pieces, hq] at h
    rw [hq] at ih
    split at h
    · rcases List.mem_cons.1 h with rfl | h
      · simp
      · exact ih h
    · next hd =>
      rcases List.mem_cons.1 h with rfl | h
      · rw [List.forall_mem_cons]
        exact ⟨Bool.eq_false_iff.2 hd, ih List.mem_cons_self⟩
      · exact ih (List.mem_cons_of_mem _ h)

/-- The first piece, then a space and the piece for each further piece that is not empty. -/
theorem squeeze_eq_of_pieces {s p : Text} {ps : List Text} (h : pieces isBlank s = p :: ps) :
    squeeze true s = p ++ (ps.filter (!·.isEmpty)).flatMap (' ' :: ·) ∧
      squeeze false s = ((p :: ps).filter (!·.isEmpty)).flatMap (' ' :: ·) := by
  induction s generalizing p ps with
  | nil =>
    obtain ⟨rfl, rfl⟩ := List.cons.inj h
    exact ⟨rfl, rfl⟩
  | cons c s ih =>
    obtain ⟨q, qs, hq⟩ := exists_pieces_eq_cons isBlank s
    obtain ⟨ht, hf⟩ := ih hq
    cases hc : isBlank c with
    | true =>
      simp only [pieces, hc, if_true] at h
      obtain ⟨rfl, rfl⟩ := List.cons.inj h
      rw [squeeze_blank hc, squeeze_blank hc, hf, hq]
      exact ⟨rfl, rfl⟩
    | false =>
      simp only [pieces, hc, Bool.false_eq_true, if_false, hq, List.modifyHead_cons] at h
      obtain ⟨rfl, rfl⟩ := List.cons.inj h
      rw [squeeze_true hc, squeeze_false hc, ht]
      exact ⟨rfl, rfl⟩

theorem intercalate_space_eq_tail (ws : List Text) :
    [' '].intercalate ws = (ws.flatMap (' ' :: ·)).tail := by
  induction ws with
  | nil => rfl
  | cons w ws ih =>
    cases ws with
    | nil => simp
    | cons v ws =>
      rw [List.intercalate_cons_cons, ih]
      simp

theorem collapse_eq_tail_squeeze (s : Text) : collapse s = (squeeze false s).tail := by
  obtain ⟨p, ps, h⟩ := exists_pieces_eq_cons isBlank s
  rw [(squeeze_eq_of_pieces h).2, ← h, collapse, intercalate_space_eq_tail, words]

/-- Squeezed after white space, a text is all blank or starts with a space and its first word. -/
theorem squeeze_false_eq (s : Text) : squeeze false s = [] ∧ trimStart s = [] ∨
    squeeze false s = ' ' :: squeeze true (trimStart s) ∧ trimStart s ≠ [] := by
  induction s with
  | nil => exact .inl ⟨rfl, rfl⟩
  | cons c s ih =>
    cases hc : isBlank c with
    | true => rwa [squeeze_blank hc, trimStart, List.dropWhile_cons_of_pos hc]
    | false =>
      right
      rw [squeeze_false hc, trimStart, List.dropWhile_cons_of_neg (by simp [hc]), squeeze_true hc]
      simp

theorem trimStart_squeeze (s : Text) :
    trimStart (squeeze true (trimStart s)) = squeeze true (trimStart s) := by
  rcases hs : trimStart s with _ | ⟨c, t⟩
  · rfl
  · have hc := isBlank_of_trimStart_eq_cons hs
    rw [squeeze_true hc, trimStart_cons_of_not_blank hc]

theorem collapse_eq_squeeze_trimStart (s : Text) : collapse s = squeeze true (trimStart s) := by
  rw [collapse_eq_tail_squeeze]
  rcases squeeze_false_eq s with ⟨h, ht⟩ | ⟨h, -⟩
  · rw [h, ht]; rfl
  · rw [h]; rfl

/-- **White space parts a text** into texts that are squeezed one by one. -/
theorem squeeze_append_blank {b : Char} (hb : isBlank b = true) (x y : Text) (j : Bool) :
    squeeze j (x ++ b :: y) = squeeze j x ++ squeeze false y := by
  induction x generalizing j with
  | nil => simp [squeeze_blank hb]
  | cons c x ih =>
    cases hc : isBlank c with
    | true => rw [List.cons_append, squeeze_blank hc, squeeze_blank hc, ih]
    | false => cases j <;> simp [squeeze, hc, ih]

/-- A text after white space is collapsed on its own, and a space parts it from what precedes that,
unless nothing does. -/
theorem collapse_append_blank {b : Char} (hb : isBlank b = true) {y : Text}
    (hy : trimStart y ≠ []) (x : Text) :
    collapse (x ++ b :: y) = collapse y ∨
      collapse (x ++ b :: y) = collapse x ++ ' ' :: collapse y := by
  have hys : squeeze false y = ' ' :: collapse y := by
    rw [collapse_eq_squeeze_trimStart]
    exact ((squeeze_false_eq y).resolve_left fun h => hy h.2).1
  rw [collapse_eq_tail_squeeze, squeeze_append_blank hb, hys]
  rcases squeeze_false_eq x with ⟨hx, -⟩ | ⟨hx, -⟩
  · left
    rw [hx]
    rfl
  · right
    rw [hx, ← collapse_eq_squeeze_trimStart]
    rfl

theorem collapse_append_singleton {b : Char} (hb : isBlank b = true) (x : Text) :
    collapse (x ++ [b]) = collapse x := by
  rw [collapse_eq_tail_squeeze, squeeze_append_blank hb, squeeze_nil, List.append_nil,
    ← collapse_eq_tail_squeeze]

theorem collapse_of_not_isBlank {c : Char} (hc : isBlank c = false) (s : Text) :
    collapse (c :: s) = squeeze true (c :: s) := by
  rw [collapse_eq_squeeze_trimStart, trimStart_cons_of_not_blank hc]

theorem isBlank_of_getLast?_squeeze {j : Bool} {s : Text} {c : Char}
    (h : (squeeze j s).getLast? = some c) : isBlank c = false := by
  induction s generalizing j with
  | nil => simp at h
  | cons d s ih =>
    cases hd : isBlank d with
    | true =>
      rw [squeeze_blank hd] at h
      exact ih h
    | false =>
      have hlast : (d :: squeeze true s).getLast? = some c := by
        cases j with
        | true => rwa [squeeze_true hd] at h
        | false => rwa [squeeze_false hd, List.getLast?_cons_cons] at h
      rw [getLast?_cons_eq_or] at hlast
      rcases Option.or_eq_some_iff.1 hlast with hs | ⟨-, hs⟩
      · exact ih hs
      · rwa [← Option.some.inj hs]

theorem trimEnd_collapse (s : Text) : trimEnd (collapse s) = collapse s := by
  have hne : (collapse s).reverse.dropWhile isBlank = (collapse s).reverse := by
    rw [collapse_eq_squeeze_trimStart]
    cases hr : (squeeze true (trimStart s)).reverse with
    | nil => rfl
    | cons c r =>
      have hlast : (squeeze true (trimStart s)).getLast? = some c := by
        rw [← List.head?_reverse, hr]
        rfl
      rw [List.dropWhile_cons_of_neg (by simp [isBlank_of_getLast?_squeeze hlast])]
  rw [trimEnd, hne, List.reverse_reverse]

theorem length_squeeze_le (j : Bool) (s : Text) :
    (squeeze j s).length ≤ s.length + if j then 0 else 1 := by
  induction s generalizing j with
  | nil => simp
  | cons c s ih =>
    have htrue := ih true
    have hfalse := ih false
    simp only [if_true, Bool.false_eq_true, if_false] at htrue hfalse
    cases hc : isBlank c with
    | true =>
      rw [squeeze_blank hc, List.length_cons]
      omega
    | false => cases j <;> simp [squeeze, hc] <;> omega

theorem length_collapse_le (s : Text) : (collapse s).length ≤ s.length := by
  have hsqueeze := length_squeeze_le true (trimStart s)
  have hstart := (List.dropWhile_sublist isBlank (l := s)).length_le
  rw [collapse_eq_squeeze_trimStart]
  simp only [if_true] at hsqueeze
  exact hsqueeze.trans hstart

theorem trim_of_collapse {s : Text} (h : collapse s = s) : trim s = s := by
  have hstart : trimStart s = s := by
    rw [← h, collapse_eq_squeeze_trimStart, trimStart_squeeze]
  have hend : trimEnd s = s := by
    rw [← h, trimEnd_collapse]
  rw [trim, hstart, hend]

/-- What stands after white space in a collapsed text is collapsed. -/
theorem collapse_of_append_blank {x y : Text} {b : Char} (hb : isBlank b = true)
    (hy : trimStart y ≠ []) (h : collapse (x ++ b :: y) = x ++ b :: y) : collapse y = y := by
  have hlen := length_collapse_le y
  rcases collapse_append_blank hb hy x with heq | heq
  · have := congrArg List.length (heq.symm.trans h)
    simp only [List.length_append, List.length_cons] at this
    omega
  · have hx := length_collapse_le x
    have heq := heq.symm.trans h
    have := congrArg List.length heq
    simp only [List.length_append, List.length_cons] at this
    exact (List.cons.inj (List.append_inj heq (by omega)).2).2

/-! ## Parts of a collapsed text -/

/-- Every run of white space made one space, those at the ends too. The flag says that white space
is just passed. -/
def tightenFrom : (passed : Bool) → Text → Text
  | _, [] => []
  | p, c :: s =>
    if isBlank c then (if p then tightenFrom true s else ' ' :: tightenFrom true s)
    else c :: tightenFrom false s

/-- Every run of white space made one space, those at the ends too. -/
def tighten (s : Text) : Text := tightenFrom false s

theorem squeeze_append_cons {c : Char} (hc : isBlank c = false) (x y : Text) :
    squeeze true (x ++ c :: y) = tighten x ++ c :: squeeze true y := by
  have both : squeeze true (x ++ c :: y) = tightenFrom false x ++ c :: squeeze true y ∧
      squeeze false (x ++ c :: y) = ' ' :: (tightenFrom true x ++ c :: squeeze true y) := by
    induction x with
    | nil => simp [tightenFrom, squeeze, hc]
    | cons d x ih =>
      cases hd : isBlank d <;> simp [tightenFrom, squeeze, hd, ih]
  exact both.1

theorem tightenFrom_append_cons {c : Char} (hc : isBlank c = false) (p : Bool) (x y : Text) :
    tightenFrom p (x ++ c :: y) = tightenFrom p x ++ c :: tighten y := by
  induction x generalizing p with
  | nil => simp [tightenFrom, tighten, hc]
  | cons d x ih => cases hd : isBlank d <;> cases p <;> simp [tightenFrom, hd, ih]

theorem tightenFrom_append_of_forall {w : Text} (hne : w ≠ []) (hw : ∀ c ∈ w, isBlank c = false)
    (p : Bool) (y : Text) : tightenFrom p (w ++ y) = w ++ tighten y := by
  induction w generalizing p with
  | nil => exact absurd rfl hne
  | cons c w ih =>
    rw [List.forall_mem_cons] at hw
    cases w with
    | nil => simp [tightenFrom, tighten, hw.1]
    | cons d w => simp [tightenFrom, hw.1, ← ih (List.cons_ne_nil d w) hw.2 false]

theorem tighten_of_forall {w : Text} (hw : ∀ c ∈ w, isBlank c = false) : tighten w = w := by
  cases w with
  | nil => rfl
  | cons c w =>
    have h := tightenFrom_append_of_forall (List.cons_ne_nil c w) hw false []
    rwa [List.append_nil, show tighten [] = [] from rfl, List.append_nil] at h

theorem isPrefix_of_tighten {w s : Text} (hw : ∀ c ∈ w, isBlank c = false)
    (h : w <+: tighten s) : w <+: s := by
  induction w generalizing s with
  | nil => exact List.nil_prefix
  | cons c w ih =>
    rw [List.forall_mem_cons] at hw
    cases s with
    | nil => simp [tighten, tightenFrom] at h
    | cons d s =>
      cases hd : isBlank d with
      | true =>
        have hs : tighten (d :: s) = ' ' :: tightenFrom true s := by simp [tighten, tightenFrom, hd]
        rw [hs, List.cons_prefix_cons] at h
        rw [h.1] at hw
        exact absurd hw.1 (by decide)
      | false =>
        have hs : tighten (d :: s) = d :: tighten s := by simp [tighten, tightenFrom, hd]
        rw [hs, List.cons_prefix_cons] at h
        exact List.cons_prefix_cons.2 ⟨h.1, ih hw.2 h.2⟩

/-- A text without white space that lies in the tightened text lies in the text. -/
theorem isInfix_of_tighten {w s : Text} (hne : w ≠ []) (hw : ∀ c ∈ w, isBlank c = false) :
    w <:+: tighten s → w <:+: s := by
  have both : ∀ p, w <:+: tightenFrom p s → w <:+: s := by
    induction s with
    | nil => exact fun _ => id
    | cons d s ih =>
      intro p h
      cases hd : isBlank d with
      | true =>
        have hs : w <:+: ' ' :: tightenFrom true s := by
          cases p with
          | true =>
            simp only [tightenFrom, hd, if_true] at h
            exact List.infix_cons h
          | false => simpa [tightenFrom, hd] using h
        rcases List.infix_cons_iff.1 hs with hs | hs
        · obtain ⟨c, w, rfl⟩ := List.exists_cons_of_ne_nil hne
          rw [(List.cons_prefix_cons.1 hs).1, List.forall_mem_cons] at hw
          exact absurd hw.1 (by decide)
        · exact List.infix_cons (ih true hs)
      | false =>
        have hs : tightenFrom p (d :: s) = d :: tighten s := by simp [tightenFrom, tighten, hd]
        rw [hs] at h
        rcases List.infix_cons_iff.1 h with h | h
        · obtain ⟨c, w, rfl⟩ := List.exists_cons_of_ne_nil hne
          obtain ⟨rfl, hrest⟩ := List.cons_prefix_cons.1 h
          have hpre := isPrefix_of_tighten (List.forall_mem_cons.1 hw).2 hrest
          exact (List.cons_prefix_cons.2 ⟨rfl, hpre⟩).isInfix
        · exact List.infix_cons (ih false h)
  exact both false

/-! ## Reading a collapsed text -/

/-- A given text without white space stands at the front of the squeezed text exactly where it
stands at the front of the text. -/
theorem exists_of_squeeze_eq_append {w s r : Text} (hw : ∀ c ∈ w, isBlank c = false)
    (h : squeeze true s = w ++ r) : ∃ t, s = w ++ t ∧ squeeze true t = r := by
  induction w generalizing s with
  | nil => exact ⟨s, rfl, h⟩
  | cons d w ih =>
    have hd : isBlank d = false := hw d (by simp)
    cases s with
    | nil => simp at h
    | cons c s =>
      cases hc : isBlank c with
      | true =>
        -- a squeezed text that starts with white space starts with a space, and `d` is none
        rw [squeeze_blank hc] at h
        rcases squeeze_false_eq s with ⟨hs, -⟩ | ⟨hs, -⟩ <;> rw [hs] at h
        · simp at h
        · obtain ⟨rfl, -⟩ := List.cons.inj h
          simp [isBlank] at hd
      | false =>
        rw [squeeze_true hc] at h
        obtain ⟨rfl, hs⟩ := List.cons.inj h
        obtain ⟨t, rfl, ht⟩ := ih (fun c hc => hw c (by simp [hc])) hs
        exact ⟨t, rfl, ht⟩

theorem exists_blank_of_squeeze_eq_cons {s r : Text} {c : Char} (hc : isBlank c = true)
    (h : squeeze true s = c :: r) :
    ∃ b t, s = b :: t ∧ isBlank b = true ∧ c = ' ' ∧ r = squeeze true (trimStart t) := by
  cases s with
  | nil => simp at h
  | cons b t =>
    cases hb : isBlank b with
    | true =>
      rw [squeeze_blank hb] at h
      rcases squeeze_false_eq t with ⟨ht, -⟩ | ⟨ht, -⟩ <;> rw [ht] at h
      · simp at h
      · obtain ⟨rfl, rfl⟩ := List.cons.inj h
        exact ⟨b, t, rfl, hb, rfl, rfl⟩
    | false =>
      rw [squeeze_true hb] at h
      obtain ⟨rfl, -⟩ := List.cons.inj h
      simp [hb] at hc

theorem endsHere_squeeze {inWord : Char → Bool} (hb : ∀ c, isBlank c = true → inWord c = false)
    (s : Text) : endsHere inWord (squeeze true s) = endsHere inWord s := by
  cases s with
  | nil => rfl
  | cons c s =>
    cases hc : isBlank c with
    | true =>
      rw [squeeze_blank hc]
      rcases squeeze_false_eq s with ⟨h, -⟩ | ⟨h, -⟩ <;>
        simp [h, endsHere, hb c hc, hb ' ' (by decide)]
    | false => rw [squeeze_true hc]; rfl

theorem wordHere_of_squeeze {w s : Text} (hw : ∀ c ∈ w, isBlank c = false)
    (h : wordHere w (squeeze true s) = true) : wordHere w s = true := by
  obtain ⟨r, hr, he⟩ := wordHere_iff.1 h
  obtain ⟨t, rfl, rfl⟩ := exists_of_squeeze_eq_append hw hr
  rw [endsHere_squeeze fun c hc => isWordChar_of_isBlank hc] at he
  exact wordHere_iff.2 ⟨t, rfl, he⟩

/-! ## Places of a collapsed text -/

/-- The same character ends both texts as far as a class that holds of all white space, and of no
character at all, can tell. -/
def SameBefore (x y : Text) : Prop :=
  ∀ p : Char → Bool, (∀ c, isBlank c = true → p c = true) → x.getLast?.all p = y.getLast?.all p

/-- A place of the squeezed text, with the characters before it told by `b` and `b'` where the two
texts have none. -/
theorem exists_of_squeeze_eq_append_cons {j : Bool} {s x y : Text} {d : Char}
    (hd : isBlank d = false) (h : squeeze j s = x ++ d :: y) :
    ∃ x' y', s = x' ++ d :: y' ∧ squeeze true y' = y ∧
      ∀ p : Char → Bool, (∀ c, isBlank c = true → p c = true) → ∀ b b' : Option Char,
        (j = true → b.all p = b'.all p) → (j = false → b'.all p = true) →
          (x.getLast?.or b).all p = (x'.getLast?.or b').all p := by
  induction s generalizing j x with
  | nil => simp at h
  | cons c s ih =>
    cases hc : isBlank c with
    | true =>
      rw [squeeze_blank hc] at h
      obtain ⟨x', y', rfl, hy, hp⟩ := ih h
      refine ⟨c :: x', y', rfl, hy, fun p hb b b' _ _ => ?_⟩
      rw [hp p hb b (some c) (by simp) fun _ => hb c hc, getLast?_cons_eq_or]
      cases x'.getLast? <;> rfl
    | false =>
      -- what follows `c` in the squeezed text is squeezed right after a word
      have tail : ∀ x₁, squeeze true s = x₁ ++ d :: y → ∃ x' y', c :: s = x' ++ d :: y' ∧
          squeeze true y' = y ∧ ∀ p : Char → Bool, (∀ c, isBlank c = true → p c = true) →
            ∀ b b' : Option Char, ((c :: x₁).getLast?.or b).all p = (x'.getLast?.or b').all p := by
        intro x₁ h₁
        obtain ⟨x', y', rfl, hy, hp⟩ := ih h₁
        refine ⟨c :: x', y', rfl, hy, fun p hb b b' => ?_⟩
        have := hp p hb (some c) (some c) (fun _ => rfl) (by simp)
        rw [getLast?_cons_eq_or, getLast?_cons_eq_or, Option.or_assoc, Option.or_assoc]
        exact this
      cases j with
      | true =>
        rw [squeeze_true hc] at h
        cases x with
        | nil =>
          obtain ⟨rfl, rfl⟩ := List.cons.inj h
          exact ⟨[], s, rfl, rfl, fun p hb b b' hbb _ => hbb rfl⟩
        | cons c' x =>
          obtain ⟨rfl, hx⟩ := List.cons.inj h
          obtain ⟨x', y', hs, hy, hp⟩ := tail x hx
          exact ⟨x', y', hs, hy, fun p hb b b' _ _ => hp p hb b b'⟩
      | false =>
        rw [squeeze_false hc] at h
        cases x with
        | nil =>
          obtain ⟨rfl, -⟩ := List.cons.inj h
          simp [isBlank] at hd
        | cons e x =>
          obtain ⟨rfl, he⟩ := List.cons.inj h
          cases x with
          | nil =>
            obtain ⟨rfl, rfl⟩ := List.cons.inj he
            refine ⟨[], s, rfl, rfl, fun p hb b b' _ hb' => ?_⟩
            simpa [hb ' ' (by decide)] using (hb' rfl).symm
          | cons c' x =>
            obtain ⟨rfl, hx⟩ := List.cons.inj he
            obtain ⟨x', y', hs, hy, hp⟩ := tail x hx
            refine ⟨x', y', hs, hy, fun p hb b b' _ _ => ?_⟩
            rw [List.getLast?_cons_cons]
            exact hp p hb b b'

/-- **A place of a collapsed text is a place of the text.** -/
theorem exists_of_collapse_eq_append {s x y : Text} {d : Char} (hd : isBlank d = false)
    (h : collapse s = x ++ d :: y) :
    ∃ x' y', s = x' ++ d :: y' ∧ squeeze true y' = y ∧ SameBefore x x' := by
  have hs : squeeze false s = (' ' :: x) ++ d :: y := by
    rw [collapse_eq_tail_squeeze] at h
    rcases squeeze_false_eq s with ⟨hn, -⟩ | ⟨hn, -⟩ <;> rw [hn] at h ⊢
    · simp at h
    · simpa using h
  obtain ⟨x', y', hs, hy, hp⟩ := exists_of_squeeze_eq_append_cons hd hs
  refine ⟨x', y', hs, hy, fun p hb => ?_⟩
  have := hp p hb none none (by simp) (by simp)
  rw [Option.or_none, Option.or_none, getLast?_cons_eq_or] at this
  rw [← this]
  cases x.getLast? <;> simp [hb ' ' (by decide)]

end SpecHarvest.Text
