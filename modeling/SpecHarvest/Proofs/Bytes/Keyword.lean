import SpecHarvest.Proofs.Bytes.Cursor
import SpecHarvest.Proofs.Source.Keyword
import SpecHarvest.Proofs.Text.Occurrence
import SpecHarvest.Text.Find

/-!
# Keywords over bytes

`findWord` looks for a keyword from a byte offset on and compares the bytes next to each occurrence
with those of identifiers; after an occurrence inside an identifier it goes on one byte further.
A keyword is of ASCII, so that is a boundary again, and the search finds what `keywordSearch` finds
(`findWord_width`, `findWord_zero`). `tryAfter` reads after each place of a keyword in turn and
agrees with a reader tried at all of them (`tryAfter_zero`).
-/

namespace SpecHarvest.Bytes

open Text Source

/-! ## Occurrences -/

/-- The offset of the first occurrence of a text. -/
def find (lit s : Text) : Found Nat := OptionT.mk (.ok ((cut? lit s).map fun p => width p.1))

/-- An offset where a text is divided, at an occurrence of `lit`. -/
def Divides (lit s : Text) (i : Nat) (p : Text × Text) : Prop :=
  s = p.1 ++ (lit ++ p.2) ∧ i = width p.1

section

variable {lit s : Text} {i : Nat} {p : Text × Text}

theorem find_agrees (lit s : Text) : Agrees (Divides lit s) (find lit s) (cut? lit s) := by
  refine ⟨_, rfl, ?_⟩
  cases hc : cut? lit s with
  | none => exact .none
  | some p =>
    obtain ⟨front, rest⟩ := p
    exact .some ⟨by rw [eq_of_cut? hc, List.append_assoc], rfl⟩

theorem Divides.at (h : Divides lit s i p) : At s i (lit ++ p.2) := ⟨p.1, h.1, h.2.symm⟩

theorem Divides.slice (h : Divides lit s i p) : slice s 0 i = .ok p.1 := by
  have h0 : At s 0 (p.1 ++ (lit ++ p.2)) := h.1 ▸ at_zero s
  exact h0.slice (by rw [h.2, Nat.zero_add])

end

/-! ## The search -/

/-- A keyword: not empty, and of ASCII. -/
def IsWord (word : Text) : Prop := word ≠ [] ∧ IsAscii word

instance (word : Text) : Decidable (IsWord word) := inferInstanceAs (Decidable (_ ∧ _))

/-- Whether no identifier ends at an offset. -/
def freeBefore (s : Text) (i : Nat) : Checked Bool :=
  if i = 0 then return true
  else do
    let b ← byteAt s (← sub i 1)
    return !ascii isIdentChar b

/-- Whether no identifier goes on at an offset. -/
def freeAfter (s : Text) (j : Nat) : Checked Bool :=
  if width s ≤ j then return true
  else do
    let b ← byteAt s j
    return !ascii isIdentChar b

/-- The first offset, from `start` on, at which a keyword stands that is no part of an identifier.
Inside a character there is none. -/
def findWord (s word : Text) (start : Nat) : Checked (Option Nat) :=
  if start ≤ width s then
    match cutAt? start s with
    | none => return none
    | some (_, rest) =>
      match cut? word rest with
      | none => return none
      | some (front, _) => do
        let i := start + width front
        let stop ← add i (width word)
        if (← freeBefore s i) && (← freeAfter s stop) then return some i
        else do
          fits (i + 1)
          findWord s word (i + 1)
  else return none
termination_by width s + 1 - start

section

variable {front rest word : Text}

/-- Before a place stands the last byte of the character before it. -/
theorem exists_byte_before (front : Text) (d : Char) (rest : Text) :
    ∃ b ∈ String.utf8EncodeChar d,
      byte? (front ++ [d] ++ rest) (width (front ++ [d]) - 1) = some b := by
  have hd := d.utf8Size_pos
  have hat : At (front ++ [d] ++ rest) (width front) (d :: rest) := ⟨front, by simp, rfl⟩
  have hlt : d.utf8Size - 1 < (String.utf8EncodeChar d).length := by
    rw [String.length_utf8EncodeChar]
    omega
  have hb := hat.byte? (d.utf8Size - 1)
  rw [bytes_cons, List.getElem?_append_left hlt, List.getElem?_eq_getElem hlt] at hb
  have hw : width (front ++ [d]) - 1 = width front + (d.utf8Size - 1) := by
    simp only [width_append, width_cons, width_nil]
    omega
  exact ⟨_, List.getElem_mem hlt, hw ▸ hb⟩

theorem freeBefore_width (front rest : Text) :
    freeBefore (front ++ rest) (width front) = .ok (startsHere front.getLast?) := by
  rcases List.eq_nil_or_concat' front with rfl | ⟨f, d, rfl⟩
  · rfl
  · obtain ⟨b, hmem, hb⟩ := exists_byte_before f d rest
    have hd := d.utf8Size_pos
    have hw : width (f ++ [d]) = width f + d.utf8Size := by simp [width]
    rw [freeBefore, if_neg (by omega), sub_of_le (by omega), ok_bind, byteAt_of_byte? hb, ok_bind,
      onBytes_ascii lt_of_isIdentChar d _ hmem]
    simp [startsHere]

theorem freeAfter_at {s : Text} {j : Nat} (h : At s j rest) :
    freeAfter s j = .ok (endsHere isIdentChar rest) := by
  cases rest with
  | nil =>
    rw [freeAfter, if_pos (Nat.le_of_eq h.eq_width.symm)]
    rfl
  | cons d t =>
    rw [freeAfter, if_neg (Nat.not_le.2 h.lt), h.byteAt, ok_bind,
      onBytes_ascii lt_of_isIdentChar d _ (lead_mem d)]
    rfl

theorem findWord_at {s : Text} {i : Nat} (h : At s i rest) :
    findWord s word i =
      ((cut? word rest).map fun p => i + width p.1).elim (.ok none) (fun i => do
        let stop ← add i (width word)
        if (← freeBefore s i) && (← freeAfter s stop) then return some i
        else do
          fits (i + 1)
          findWord s word (i + 1)) := by
  have hi := h.add_width
  obtain ⟨f, hs, rfl⟩ := h
  have hcut : cutAt? (width f) s = some (f, rest) := by rw [hs, cutAt?_width]
  rw [findWord, if_pos (by omega), hcut]
  cases hc : cut? word rest <;> simp only [hc] <;> rfl

theorem IsWord.lt_of_after? (hw : IsWord word) {c : Char} {r : Text}
    (h : after? word (c :: rest) = some r) : c.toNat < 0x80 := by
  obtain ⟨d, w, rfl⟩ := List.exists_cons_of_ne_nil hw.1
  obtain ⟨rfl, -⟩ := List.cons.inj (after?_eq_some_iff.1 h)
  exact hw.2 c (by simp)

theorem keywordSearch_cons (hw : IsWord word) (before : Option Char) (c : Char) (rest : Text) :
    keywordSearch word before (c :: rest) = match keywordHere? word before (c :: rest) with
      | some r => some ([], r)
      | none => (keywordSearch word (some c) rest).map fun p => (c :: p.1, p.2) := by
  obtain ⟨d, w, rfl⟩ := List.exists_cons_of_ne_nil hw.1
  exact Source.keywordSearch_cons (utf8Size_of_lt (hw.2 d (by simp))) c rest

theorem findWord_here {s r : Text} {c : Char} (hs : Small s) (hf : s = front ++ c :: rest)
    (h : after? word (c :: rest) = some r) : findWord s word (width front) =
      if startsHere front.getLast? && endsHere isIdentChar r then .ok (some (width front))
      else findWord s word (width front + 1) := by
  have hat : At s (width front) (word ++ r) := ⟨front, hf.trans (by rw [after?_eq_some_iff.1 h]), rfl⟩
  have hw := hat.append.add_width
  have hsmall : width s < 2 ^ 31 := hs
  have hcut : cut? word (c :: rest) = some ([], r) := by rw [cut?, h]
  rw [findWord_at ⟨front, hf, rfl⟩, hcut, Option.map_some, Option.elim_some, width_nil,
    Nat.add_zero, add_of_lt (by omega), ok_bind, hf, freeBefore_width, ok_bind, ← hf,
    freeAfter_at hat.append, ok_bind, fits_of_small hs (by omega)]
  rfl

theorem findWord_width {s : Text} (hw : IsWord word) (hs : Small s) (hf : s = front ++ rest) :
    findWord s word (width front) =
      .ok ((keywordSearch word front.getLast? rest).map fun p => width front + width p.1) := by
  induction rest generalizing front with
  | nil =>
    have ha : after? word [] = none := by
      obtain ⟨d, w, rfl⟩ := List.exists_cons_of_ne_nil hw.1
      rfl
    have hcut : cut? word [] = none := by
      rw [cut?, if_neg (by simpa using hw.1)]
    rw [findWord_at ⟨front, hf, rfl⟩, hcut, keywordSearch, keywordHere?, ha]
    rfl
  | cons c rest ih =>
    have hsplit : s = front ++ [c] ++ rest := by simp [hf]
    have hwidth (p : Text × Text) : width (front ++ [c]) + width p.1 =
        width front + width (c :: p.1) := by simp [Nat.add_assoc]
    have hnext : findWord s word (width (front ++ [c])) =
        .ok (((keywordSearch word (some c) rest).map fun p => (c :: p.1, p.2)).map
          fun p => width front + width p.1) := by
      rw [ih hsplit, Option.map_map, List.getLast?_concat]
      simp only [hwidth]
      rfl
    rw [keywordSearch_cons hw]
    cases ha : after? word (c :: rest) with
    | none =>
      have hhere : keywordHere? word front.getLast? (c :: rest) = none := by simp [keywordHere?, ha]
      have hskip : findWord s word (width front) = findWord s word (width (front ++ [c])) := by
        rw [findWord_at ⟨front, hf, rfl⟩, findWord_at ⟨front ++ [c], hsplit, rfl⟩, cut?, ha,
          Option.map_map]
        simp only [Function.comp_def, hwidth]
      rw [hskip, hnext, hhere]
    | some r =>
      rw [findWord_here hs hf ha]
      cases hfree : startsHere front.getLast? && endsHere isIdentChar r with
      | true =>
        have hhere : keywordHere? word front.getLast? (c :: rest) = some r := by
          simp [keywordHere?, ha, hfree]
        rw [hhere]
        rfl
      | false =>
        -- the word is of ASCII, so the next byte starts a character
        have hhere : keywordHere? word front.getLast? (c :: rest) = none := by
          simp [keywordHere?, ha, hfree]
        have hone : width front + 1 = width (front ++ [c]) := by
          simp [utf8Size_of_lt (hw.lt_of_after? ha)]
        rw [if_neg Bool.false_ne_true, hone, hnext, hhere]

/-- The search of a whole text. -/
theorem findWord_zero {s : Text} (hw : IsWord word) (hs : Small s) :
    findWord s word 0 = .ok ((keywordSearch word none s).map fun p => width p.1) := by
  have h : findWord s word (width []) = _ := findWord_width hw hs rfl
  simpa using h

end

theorem bounds_of_findWord {s word : Text} {start i : Nat}
    (h : findWord s word start = .ok (some i)) : start ≤ i ∧ start ≤ width s := by
  fun_induction findWord s word start with
  | case1 => cases h
  | case2 => cases h
  | case3 start hstart _ rest hcut front hf _ i' ih =>
    refine ⟨?_, hstart⟩
    obtain ⟨stop, -, h⟩ := bind_eq_ok_iff.1 h
    obtain ⟨b, -, h⟩ := bind_eq_ok_iff.1 h
    obtain ⟨b', -, h⟩ := bind_eq_ok_iff.1 h
    split at h
    · have hi : start + width front = i := Option.some.inj (Except.ok.inj h)
      omega
    · obtain ⟨-, -, h⟩ := bind_eq_ok_iff.1 h
      exact Nat.le_trans (Nat.le_add_right _ _) (Nat.le_of_succ_le (ih h).1)
  | case4 => cases h

/-! ## Reading after a keyword -/

/-- The text after the first place of a keyword. -/
def afterWord (s word : Text) : Found Text := do
  let i ← OptionT.mk (findWord s word 0)
  let j ← add i (width word)
  sliceFrom s j

theorem sublist_of_keyword? {word s tail : Text} (h : keyword? word s = some tail) :
    tail.Sublist s := by
  obtain ⟨⟨front, _⟩, hk, rfl⟩ := Option.map_eq_some_iff.1 h
  rw [eq_of_keywordSearch hk]
  exact List.sublist_append_right _ _

theorem afterWord_agrees {word s : Text} (hw : IsWord word) (hs : Small s) :
    Agrees Eq (afterWord s word) (keyword? word s) := by
  have hword := findWord_zero hw hs
  rw [keyword?]
  cases hk : keywordSearch word none s with
  | none => exact .missing (by rw [hword, hk]; rfl)
  | some p =>
    obtain ⟨front, tail⟩ := p
    have hat : At s (width front) (word ++ tail) :=
      ⟨front, by rw [eq_of_keywordSearch hk, List.append_assoc], rfl⟩
    have hlen := hat.append.add_width
    have hsmall : width s < 2 ^ 31 := hs
    refine .found (a := width front) (by rw [hword, hk]; rfl) ?_
    exact .lift (add_of_lt (by omega)) (.lifted hat.append.sliceFrom rfl)

/-- What a reader finds after the first place of a keyword, from an offset on, and white space,
where it finds something. -/
def tryAfter {α : Type} (s word : Text) (read : Cursor → Found α) (start : Nat) :
    Checked (Option α) := do
  match ← attach (findWord s word start) with
  | ⟨none, _⟩ => return none
  | ⟨some i, _h⟩ => do
    fits (i + 1)
    let tail ← sliceFrom s (← add i (width word))
    match ← ((Cursor.start tail).blanks >>= read).run with
    | some a => return some a
    | none => tryAfter s word read (i + 1)
termination_by width s + 1 - start
decreasing_by
  have := bounds_of_findWord _h
  omega

theorem afterKeyword_eq_nil {word : Text} (hw : IsWord word) {before : Option Char} {s : Text}
    (h : keywordSearch word before s = none) : afterKeyword word before s = [] := by
  induction s generalizing before with
  | nil =>
    rw [keywordSearch, Option.map_eq_none_iff] at h
    rw [afterKeyword, h]
    rfl
  | cons c s ih =>
    rw [keywordSearch_cons hw] at h
    rw [afterKeyword]
    cases hk : keywordHere? word before (c :: s) with
    | some r => simp [hk] at h
    | none =>
      rw [hk] at h
      rw [ih (Option.map_eq_none_iff.1 h)]
      rfl

theorem afterKeyword_eq_cons {w : Char} {ws : Text} (hw : IsWord (w :: ws)) {before : Option Char}
    {s front tail : Text} (h : keywordSearch (w :: ws) before s = some (front, tail)) :
    afterKeyword (w :: ws) before s = tail :: afterKeyword (w :: ws) (some w) (ws ++ tail) := by
  induction s generalizing before front with
  | nil => simp [keywordSearch, keywordHere?, after?] at h
  | cons c s ih =>
    rw [keywordSearch_cons hw] at h
    rw [afterKeyword]
    cases hk : keywordHere? (w :: ws) before (c :: s) with
    | some r =>
      rw [hk] at h
      cases h
      obtain ⟨rfl, rfl⟩ := List.cons.inj (keywordHere?_eq_some_iff.1 hk).eq
      rfl
    | none =>
      rw [hk] at h
      obtain ⟨⟨f, t⟩, hf, he⟩ := Option.map_eq_some_iff.1 h
      cases he
      exact ih hf

theorem tryAfter_width {α β : Type} {R : α → β → Prop} {read : Cursor → Found α}
    {read' : Text → Option β} (hread : ∀ c t, c.Reads t → Agrees R (read c) (read' t))
    {word s front rest : Text} (hw : IsWord word) (hs : Small s) (hf : s = front ++ rest) :
    Agrees R (OptionT.mk (tryAfter s word read (width front)))
      ((afterKeyword word front.getLast? rest).findSome? fun t => (blanks? t).bind read') := by
  induction hn : rest.length using Nat.strongRecOn generalizing front rest with
  | _ n ih =>
  subst hn
  rw [tryAfter]
  cases hk : keywordSearch word front.getLast? rest with
  | none =>
    have hword : findWord s word (width front) = .ok none := by
      rw [findWord_width hw hs hf, hk]
      rfl
    rw [attach_of_eq hword, afterKeyword_eq_nil hw hk]
    exact .failure
  | some p =>
    obtain ⟨skipped, tail⟩ := p
    have hword : findWord s word (width front) = .ok (some (width front + width skipped)) := by
      rw [findWord_width hw hs hf, hk]
      rfl
    obtain ⟨w, ws, rfl⟩ := List.exists_cons_of_ne_nil hw.1
    have hrest := eq_of_keywordSearch hk
    have hafter := afterKeyword_eq_cons hw hk
    have hat : At s (width front + width skipped) (w :: ws ++ tail) :=
      ⟨front ++ skipped, by simp [hf, hrest], by simp⟩
    have htail := hat.append
    have hlen := htail.add_width
    have hsmall : width s < 2 ^ 31 := hs
    have hone : width front + width skipped + 1 = width (front ++ skipped ++ [w]) := by
      simp [utf8Size_of_lt (hw.2 w (by simp)), Nat.add_assoc]
    have hnext : Agrees R
        (OptionT.mk (tryAfter s (w :: ws) read (width front + width skipped + 1)))
        ((afterKeyword (w :: ws) (some w) (ws ++ tail)).findSome?
          fun t => (blanks? t).bind read') := by
      have hlt : (ws ++ tail).length < rest.length := by
        rw [hrest]
        simp only [List.length_append, List.length_cons]
        omega
      have := ih (ws ++ tail).length hlt (show s = front ++ skipped ++ [w] ++ (ws ++ tail) by
        simp [hf, hrest]) rfl
      rwa [← hone, List.getLast?_concat] at this
    have hreads : (Cursor.start tail).Reads tail :=
      Cursor.reads_start (hs.of_sublist htail.sublist)
    obtain ⟨o', ho', hrel⟩ : Agrees R ((Cursor.start tail).blanks >>= read)
        ((blanks? tail).bind read') := hreads.blanks.bind fun c t hc => hread c t hc
    rw [attach_of_eq hword, hafter, List.findSome?_cons]
    show Agrees R (OptionT.mk (fits (width front + width skipped + 1) >>= fun _ => _)) _
    rw [fits_of_small hs (by omega), ok_bind, add_of_lt (by omega), ok_bind, htail.sliceFrom,
      ok_bind, ho', ok_bind]
    generalize (blanks? tail).bind read' = o at hrel
    cases hrel with
    | none => exact hnext
    | some hab => exact .pure hab

/-- The readings in a whole text. -/
theorem tryAfter_zero {α β : Type} {R : α → β → Prop} {read : Cursor → Found α}
    {read' : Text → Option β} (hread : ∀ c t, c.Reads t → Agrees R (read c) (read' t))
    {word s : Text} (hw : IsWord word) (hs : Small s) :
    Agrees R (OptionT.mk (tryAfter s word read 0))
      ((afterKeyword word none s).findSome? fun t => (blanks? t).bind read') := by
  have h : Agrees R (OptionT.mk (tryAfter s word read (width []))) _ :=
    tryAfter_width hread hw hs rfl
  exact h

end SpecHarvest.Bytes
