import Mathlib.Data.List.Forall2
import SpecHarvest.Proofs.Bytes.Scan
import SpecHarvest.Proofs.Source.Trailing

/-!
# Line comments over bytes

`cutComment` is the scan of a line for the offset at which its comment starts, `stripComments` the
text with every line sliced there. The scan compares the bytes ahead with the marks of comments and
quasi-literals; no mark starts inside a character, so the cut is a boundary (`cutComment_at`), and
the text is the one without its comments (`stripComments_eq`).
-/

namespace SpecHarvest.Bytes

open Text Source

/-- The bytes from an offset on. -/
def bytesFrom (s : Text) (i : Nat) : Checked (List UInt8) :=
  if i ≤ width s then .ok ((bytes s).drop i) else .error .slice

/-- The offset where the comment of a line starts, or its length, and the region there. The scan
starts at an offset and in a region. -/
def cutComment (line : Text) (r : Region) (i : Nat) : Checked (Nat × Region) :=
  if i < width line then do
    let ahead ← bytesFrom line i
    match r with
    | .quasi =>
      if (bytes quasiClose).isPrefixOf ahead then do
        fits (i + width quasiClose)
        cutComment line .code (i + width quasiClose)
      else do
        fits (i + 1)
        cutComment line .quasi (i + 1)
    | .literal => do
      let b ← byteAt line i
      if b = '\\'.toUInt8 then do
        fits (i + 2)
        cutComment line .literal (i + 2)
      else do
        fits (i + 1)
        cutComment line (if b = '"'.toUInt8 then .code else .literal) (i + 1)
    | .code => do
      let b ← byteAt line i
      if b = '"'.toUInt8 then do
        fits (i + 1)
        cutComment line .literal (i + 1)
      else if (bytes quasiOpen).isPrefixOf ahead then do
        fits (i + width quasiOpen)
        cutComment line .quasi (i + width quasiOpen)
      else if (bytes "--".toList).isPrefixOf ahead then return (i, .code)
      else do
        fits (i + 1)
        cutComment line .code (i + 1)
  else return (width line, r)
termination_by width line - i
decreasing_by
  all_goals have hclose : width quasiClose = 2 := rfl
  all_goals have hopen : width quasiOpen = 6 := rfl
  all_goals omega

/-- Successive lines without their comments. -/
def stripLines : (inQuasi : Bool) → List Text → Checked (List Text)
  | _, [] => return []
  | inQuasi, line :: lines => do
    let (cut, r) ← cutComment line (if inQuasi then .quasi else .code) 0
    let kept ← slice line 0 cut
    return kept :: (← stripLines r.isQuasi lines)

/-- A text without its comments. -/
def stripComments (s : Text) : Checked Text := do
  return unlines (← stripLines false (lines s))

/-! ## Marks -/

theorem isPrefixOf_bytes {lit : Text} (hl : IsAscii lit) (s : Text) :
    (bytes lit).isPrefixOf (bytes s) = startsWith lit s := by
  induction lit generalizing s with
  | nil => simp [startsWith, after?]
  | cons l lit ih =>
    have hlt := hl l (by simp)
    rw [bytes_cons, utf8EncodeChar_of_lt hlt]
    cases s with
    | nil => rfl
    | cons c s =>
      by_cases hc : l = c
      · subst hc
        rw [bytes_cons, utf8EncodeChar_of_lt hlt]
        simp [startsWith, after?, ih (fun d hd => hl d (by simp [hd])) s]
      · have hne : ¬l.toUInt8 = lead c := fun h => hc ((lead_eq_iff hlt).1 h.symm).symm
        obtain ⟨bs, hbs⟩ := List.head?_eq_some_iff.1 (head?_utf8EncodeChar c)
        simp [hbs, List.isPrefixOf, startsWith, after?, hc, beq_false_of_ne hne]

theorem isPrefixOf_drop_of_le {lit line : Text} {l : Char} (hl : l.toNat < 0x80) {j : Nat}
    {b : UInt8} (h : byte? line j = some b) (hb : 0x80 ≤ b.toNat) :
    (bytes (l :: lit)).isPrefixOf ((bytes line).drop j) = false := by
  obtain ⟨hj, hget⟩ := List.getElem?_eq_some_iff.1 h
  rw [List.drop_eq_getElem_cons hj, hget, bytes_cons, utf8EncodeChar_of_lt hl]
  simp [List.isPrefixOf, beq_false_of_ne (ne_toUInt8_of_le hb hl).symm]

/-! ## One line -/

section

variable {line rest : Text} {i : Nat} {r : Region}

theorem At.bytesFrom (h : At line i rest) : bytesFrom line i = .ok (bytes rest) := by
  have := h.add_width
  rw [Bytes.bytesFrom, if_pos (by omega), h.drop_bytes]

theorem cutComment_of_le (h : width line ≤ i) : cutComment line r i = .ok (width line, r) := by
  rw [cutComment, if_neg (Nat.not_lt.2 h)]
  rfl

theorem cutComment_pass (hs : Small line) {j : Nat} {b : UInt8} (h : byte? line j = some b)
    (hb : 0x80 ≤ b.toNat) : cutComment line r j = cutComment line r (j + 1) := by
  have hj := lt_of_byte? h
  have hahead : Bytes.bytesFrom line j = .ok ((bytes line).drop j) := if_pos (by omega)
  have hmark {lit : Text} {l : Char} (hl : l.toNat < 0x80) :
      (bytes (l :: lit)).isPrefixOf ((bytes line).drop j) = false :=
    isPrefixOf_drop_of_le hl h hb
  rw [cutComment, if_pos hj, hahead, ok_bind]
  cases r with
  | quasi =>
    show (if (bytes ('|' :: _)).isPrefixOf _ then _ else _) = _
    rw [hmark (by decide), if_neg Bool.false_ne_true, fits_of_small hs (by omega), ok_bind]
  | literal =>
    show (byteAt line j >>= fun _ => _) = _
    rw [byteAt_of_byte? h, ok_bind, if_neg (ne_toUInt8_of_le hb (by decide)),
      fits_of_small hs (by omega), ok_bind, if_neg (ne_toUInt8_of_le hb (by decide))]
  | code =>
    show (byteAt line j >>= fun _ => _) = _
    rw [byteAt_of_byte? h, ok_bind, if_neg (ne_toUInt8_of_le hb (by decide))]
    show (if (bytes ('[' :: _)).isPrefixOf _ then _
      else if (bytes ('-' :: _)).isPrefixOf _ then _ else _) = _
    rw [hmark (by decide), if_neg Bool.false_ne_true, hmark (by decide), if_neg Bool.false_ne_true,
      fits_of_small hs (by omega), ok_bind]

theorem cutComment_quasi (hs : Small line) {c : Char} (h : At line i (c :: rest)) :
    cutComment line .quasi i =
      if startsWith quasiClose (c :: rest) then cutComment line .code (i + width quasiClose)
      else cutComment line .quasi (i + c.utf8Size) := by
  have hi := h.lt
  have hmark : (bytes quasiClose).isPrefixOf (bytes (c :: rest)) =
      startsWith quasiClose (c :: rest) := isPrefixOf_bytes (by decide) _
  have hclose : width quasiClose = 2 := rfl
  split
  · next hm =>
    rw [cutComment, if_pos hi, h.bytesFrom, ok_bind]
    show (if _ then _ else _) = _
    rw [if_pos (hmark.trans hm), fits_of_small hs (by omega), ok_bind]
  · next hm =>
    refine h.pass_of _ (fun _ => ?_) fun j b hj hb => cutComment_pass hs hj hb
    rw [cutComment, if_pos hi, h.bytesFrom, ok_bind]
    show (if _ then _ else _) = _
    rw [if_neg (hmark ▸ hm), fits_of_small hs (by omega), ok_bind]

theorem cutComment_literal (hs : Small line) {c : Char} (h : At line i (c :: rest)) :
    cutComment line .literal i =
      if c = '\\' then cutComment line .literal (i + 2)
      else cutComment line (if c = '"' then .code else .literal) (i + c.utf8Size) := by
  have hi := h.lt
  split
  · next hb =>
    rw [cutComment, if_pos hi, h.bytesFrom, ok_bind]
    show (byteAt line i >>= fun _ => _) = _
    rw [h.byteAt, ok_bind, if_pos ((lead_eq_iff (by decide)).2 hb), fits_of_small hs (by omega),
      ok_bind]
  · next hb =>
    have hstep : cutComment line .literal i =
        cutComment line (if c = '"' then .code else .literal) (i + 1) := by
      rw [cutComment, if_pos hi, h.bytesFrom, ok_bind]
      show (byteAt line i >>= fun _ => _) = _
      rw [h.byteAt, ok_bind, if_neg (mt (lead_eq_iff (by decide)).1 hb),
        fits_of_small hs (by omega), ok_bind]
      simp only [lead_eq_iff (show '"'.toNat < 0x80 by decide)]
    by_cases hq : c = '"'
    · subst hq
      exact hstep
    · rw [if_neg hq] at hstep ⊢
      exact h.pass_of _ (fun _ => hstep) fun j b hj hb => cutComment_pass hs hj hb

theorem cutComment_code (hs : Small line) {c : Char} (h : At line i (c :: rest)) :
    cutComment line .code i =
      if startsWith quasiOpen (c :: rest) then cutComment line .quasi (i + width quasiOpen)
      else if startsWith "--".toList (c :: rest) then .ok (i, .code)
      else cutComment line (if c = '"' then .literal else .code) (i + c.utf8Size) := by
  have hi := h.lt
  have hopen : (bytes quasiOpen).isPrefixOf (bytes (c :: rest)) =
      startsWith quasiOpen (c :: rest) := isPrefixOf_bytes (by decide) _
  have hdash : (bytes "--".toList).isPrefixOf (bytes (c :: rest)) =
      startsWith "--".toList (c :: rest) := isPrefixOf_bytes (by decide) _
  have hw : width quasiOpen = 6 := rfl
  by_cases hq : c = '"'
  · subst hq
    show _ = cutComment line .literal (i + 1)
    rw [cutComment, if_pos hi, h.bytesFrom, ok_bind]
    show (byteAt line i >>= fun _ => _) = _
    rw [h.byteAt, ok_bind, if_pos (lead_of_lt (by decide)), fits_of_small hs (by omega), ok_bind]
  · have hahead : cutComment line .code i =
        if startsWith quasiOpen (c :: rest) then cutComment line .quasi (i + width quasiOpen)
        else if startsWith "--".toList (c :: rest) then .ok (i, .code)
        else cutComment line .code (i + 1) := by
      rw [cutComment, if_pos hi, h.bytesFrom, ok_bind]
      show (byteAt line i >>= fun _ => _) = _
      rw [h.byteAt, ok_bind, if_neg (mt (lead_eq_iff (by decide)).1 hq), hopen, hdash,
        fits_of_small hs (by omega), fits_of_small hs (by omega)]
      rfl
    by_cases ho : startsWith quasiOpen (c :: rest) = true
    · rw [hahead, if_pos ho, if_pos ho]
    by_cases hd : startsWith "--".toList (c :: rest) = true
    · rw [hahead, if_neg ho, if_pos hd, if_neg ho, if_pos hd]
    rw [if_neg ho, if_neg hd] at hahead ⊢
    rw [if_neg hq]
    exact h.pass_of _ (fun _ => hahead) fun j b hj hb => cutComment_pass hs hj hb

theorem cutComment_at (hs : Small line) (h : At line i rest) :
    cutComment line r i = .ok (i + width (stripFrom r rest).1, (stripFrom r rest).2) := by
  induction r, rest using stripFrom.induct generalizing i with
  | case1 r =>
    rw [cutComment_of_le (Nat.le_of_eq h.eq_width.symm), ← h.eq_width]
    rfl
  | case2 s _ _ _ ih =>
    have hs2 : At line (i + 2) s := (h.cons_ascii (by decide)).cons_ascii (by decide)
    rw [cutComment_quasi hs h, if_pos (show startsWith quasiClose ('|' :: ']' :: s) = true from rfl)]
    have hstrip : stripFrom .quasi ('|' :: ']' :: s) =
        (quasiClose ++ (stripFrom .code s).1, (stripFrom .code s).2) := by
      rw [stripFrom]
      rfl
    refine (ih hs2).trans ?_
    rw [hstrip, width_append, ← Nat.add_assoc]
    rfl
  | case3 d s hd _ _ _ ih =>
    have hm : ¬startsWith quasiClose (d :: s) = true := by
      rw [startsWith_iff]
      rintro ⟨t, ht⟩
      obtain ⟨rfl, rfl⟩ := List.cons.inj ht
      exact hd t rfl rfl
    rw [cutComment_quasi hs h, if_neg hm, ih h.cons, stripFrom_quasi_cons hd]
    simp only [width_cons, Nat.add_assoc]
  | case4 d s _ _ _ ih =>
    have hd : At line (i + 1) (d :: s) := h.cons
    have hin := hd.pass_inside (cutComment line .literal) fun j b hj hb => cutComment_pass hs hj hb
    rw [cutComment_literal hs h, if_pos rfl, hin, ih hd.cons, stripFrom]
    simp only [width_cons, Nat.add_assoc, show '\\'.utf8Size = 1 from rfl]
  | case5 d s hd _ _ _ ih =>
    rw [cutComment_literal hs h, stripFrom_literal_cons hd]
    split
    · next hb =>
      subst hb
      cases s with
      | nil =>
        have := (h.cons_ascii (by decide)).eq_width
        rw [cutComment_of_le (by omega), ← this]
        rfl
      | cons e s => exact absurd rfl fun he => hd e s rfl he
    · rw [ih h.cons]
      simp only [width_cons, Nat.add_assoc]
  | case6 s =>
    rw [cutComment_code hs h,
      if_neg (show ¬startsWith quasiOpen ('-' :: '-' :: s) = true from Bool.false_ne_true),
      if_pos (show startsWith "--".toList ('-' :: '-' :: s) = true from rfl)]
    rfl
  | case7 s _ _ _ ih =>
    have ho : startsWith quasiOpen ('[' :: 'j' :: 's' :: 'o' :: 'n' :: '|' :: s) = true :=
      startsWith_append_self quasiOpen s
    have hs6 : At line (i + width quasiOpen) s := At.append (a := quasiOpen) h
    have hstrip : stripFrom .code ('[' :: 'j' :: 's' :: 'o' :: 'n' :: '|' :: s) =
        (quasiOpen ++ (stripFrom .quasi s).1, (stripFrom .quasi s).2) := by
      rw [stripFrom]
      rfl
    rw [cutComment_code hs h, if_pos ho, ih hs6, hstrip, width_append, ← Nat.add_assoc]
  | case8 d s hm hq _ _ _ ih =>
    have hn : ¬OpensHere (d :: s) := by
      rintro (hd | ho)
      · obtain ⟨t, ht⟩ := startsWith_iff.1 hd
        obtain ⟨rfl, rfl⟩ := List.cons.inj ht
        exact hm t rfl rfl
      · obtain ⟨t, ht⟩ := startsWith_iff.1 ho
        obtain ⟨rfl, rfl⟩ := List.cons.inj ht
        exact hq t rfl rfl
    obtain ⟨hd, ho⟩ := not_or.1 hn
    rw [cutComment_code hs h, if_neg ho, if_neg hd, ih h.cons, stripFrom_code_cons_of_not_opens hn]
    simp only [width_cons, Nat.add_assoc]

end

/-! ## Whole texts -/

theorem sublist_of_mem_pieces {cut : Char → Bool} {s p : Text} (h : p ∈ pieces cut s) :
    p.Sublist s := by
  induction s generalizing p with
  | nil =>
    rw [pieces, List.mem_singleton] at h
    exact h ▸ List.Sublist.refl _
  | cons c s ih =>
    rw [pieces] at h
    split at h
    · rcases List.mem_cons.1 h with rfl | h
      · exact List.nil_sublist _
      · exact (ih h).cons c
    · cases hs : pieces cut s with
      | nil => simp [hs] at h
      | cons q qs =>
        rw [hs, List.modifyHead_cons] at h
        rcases List.mem_cons.1 h with rfl | h
        · exact (ih (by simp [hs])).cons_cons c
        · exact (ih (by simp [hs, h])).cons c

theorem sublist_of_mem_lines {s l : Text} (h : l ∈ lines s) : l.Sublist s :=
  sublist_of_mem_pieces h

theorem stripLines_eq {ls : List Text} (hs : ∀ l ∈ ls, Small l) (q : Bool) :
    stripLines q ls = .ok (Source.stripLines q ls) := by
  induction ls generalizing q with
  | nil => rfl
  | cons l ls ih =>
    have hl := hs l (by simp)
    obtain ⟨dropped, hd⟩ := stripFrom_isPrefix (if q then .quasi else .code) l
    have hat : At l 0 ((stripFrom (if q then .quasi else .code) l).1 ++ dropped) := by
      rw [hd]
      exact at_zero l
    rw [stripLines, cutComment_at hl (at_zero l), ok_bind]
    show (slice l 0 _ >>= fun _ => _) = _
    rw [hat.slice rfl, ok_bind, ih fun k hk => hs k (by simp [hk])]
    rfl

/-- **A text loses its comments without a fault.** -/
theorem stripComments_eq {s : Text} (hs : Small s) :
    stripComments s = .ok (Source.stripComments s) := by
  rw [stripComments, stripLines_eq fun l hl => hs.of_sublist (sublist_of_mem_lines hl)]
  rfl

/-- Fewer lines, of which each is part of one of the lines in their order. -/
theorem unlines_sublist {ks ls : List Text} (h : List.SublistForall₂ List.Sublist ks ls) :
    (unlines ks).Sublist (unlines ls) := by
  induction h with
  | nil => exact List.nil_sublist _
  | @cons k l ks ls hkl h ih =>
    cases ks with
    | nil =>
      obtain ⟨y, hy, -⟩ := exists_unlines_cons l ls
      rw [unlines_singleton, hy]
      exact hkl.trans (List.sublist_append_left l y)
    | cons =>
      cases h
      all_goals
        rw [unlines_cons_cons, unlines_cons_cons]
        exact hkl.append (ih.cons_cons '\n')
  | @cons_right l ks ls h ih =>
    cases ls with
    | nil =>
      cases h
      exact List.nil_sublist _
    | cons =>
      rw [unlines_cons_cons]
      exact (ih.cons '\n').trans (List.sublist_append_right l _)

theorem forall₂_stripLines (q : Bool) (ls : List Text) :
    List.Forall₂ List.Sublist (Source.stripLines q ls) ls := by
  induction ls generalizing q with
  | nil => exact .nil
  | cons l ls ih => exact .cons (stripFrom_isPrefix _ l).sublist (ih _)

theorem stripComments_sublist (s : Text) : (Source.stripComments s).Sublist s := by
  have := unlines_sublist
    (List.sublistForall₂_iff.2 ⟨_, forall₂_stripLines false (lines s), .refl _⟩)
  rwa [unlines_lines] at this

end SpecHarvest.Bytes
