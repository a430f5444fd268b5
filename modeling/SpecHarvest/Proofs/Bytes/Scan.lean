import SpecHarvest.Proofs.Bytes.Offset
import SpecHarvest.Proofs.Source.Delimiter
import SpecHarvest.Proofs.Text.Blank

/-!
# Byte scans for quotes and delimiters

The searches of string literals and brackets as scans over the bytes of a text. A scan goes on one
byte at a time, two after a backslash, so it can stand inside a character; the next byte that it
stops at is of ASCII, and there it stands at a boundary again.

`closingQuote_at`, `findMatching_at` and `splitTopLevel_eq`: from a boundary on the scans go wrong
nowhere and find what `quoted?`, `matching?` and `topLevel` find.
-/

namespace SpecHarvest.Bytes

open Text Source

/-- A text of fewer than 2^31 bytes. -/
def Small (s : Text) : Prop := width s < 2 ^ 31

theorem Small.of_sublist {s t : Text} (h : Small t) (hs : s.Sublist t) : Small s :=
  Nat.lt_of_le_of_lt (width_le_of_sublist hs) h

theorem small_nil : Small [] := by
  rw [Small, width_nil]
  exact Nat.two_pow_pos 31

theorem trimEnd_sublist (s : Text) : (trimEnd s).Sublist s := by
  have := (List.dropWhile_sublist isBlank (l := s.reverse)).reverse
  rwa [List.reverse_reverse] at this

theorem trim_sublist (s : Text) : (trim s).Sublist s :=
  (trimEnd_sublist _).trans (List.dropWhile_sublist isBlank)

/-! ## The end of a literal -/

/-- The next quote that closes a literal, from an offset inside it on. A backslash passes over the
byte after it. -/
def closingQuoteFrom (s : Text) (i : Nat) : Checked (Option Nat) :=
  if i < width s then do
    let b ← byteAt s i
    if b = '\\'.toUInt8 then do
      fits (i + 2)
      closingQuoteFrom s (i + 2)
    else if b = '"'.toUInt8 then return some i
    else do
      fits (i + 1)
      closingQuoteFrom s (i + 1)
  else return none
termination_by width s - i

/-- The quote that closes the literal that opens at an offset. -/
def closingQuote (s : Text) (start : Nat) : Checked (Option Nat) :=
  if byte? s start ≠ some '"'.toUInt8 then return none
  else do
    fits (start + 1)
    closingQuoteFrom s (start + 1)

section

variable {s rest : Text} {i : Nat}

theorem byteAt_of_byte? {j : Nat} {b : UInt8} (h : byte? s j = some b) : byteAt s j = .ok b :=
  entryAt_of_getElem? h

theorem lt_of_byte? {j : Nat} {b : UInt8} (h : byte? s j = some b) : j < width s := by
  rw [← length_bytes]
  exact (List.getElem?_eq_some_iff.1 h).1

theorem fits_of_small (hs : Small s) {n : Nat} (hn : n ≤ width s + 2 ^ 31) : fits n = .ok () := by
  have : width s < 2 ^ 31 := hs
  exact fits_of_lt (by omega)

theorem closingQuoteFrom_pass (hs : Small s) {j : Nat} {b : UInt8} (h : byte? s j = some b)
    (hb : b ≠ '\\'.toUInt8) (hq : b ≠ '"'.toUInt8) :
    closingQuoteFrom s j = closingQuoteFrom s (j + 1) := by
  have hj := lt_of_byte? h
  rw [closingQuoteFrom, if_pos hj, byteAt_of_byte? h, ok_bind, if_neg hb, if_neg hq,
    fits_of_small hs (by omega), ok_bind]

theorem closingQuoteFrom_cons (hs : Small s) {c : Char} (h : At s i (c :: rest)) :
    closingQuoteFrom s i =
      if c = '\\' then closingQuoteFrom s (i + 2)
      else if c = '"' then .ok (some i)
      else closingQuoteFrom s (i + c.utf8Size) := by
  have hi := h.lt
  by_cases hb : c = '\\'
  · rw [if_pos hb, closingQuoteFrom, if_pos hi, h.byteAt, ok_bind,
      if_pos ((lead_eq_iff (by decide)).2 hb), fits_of_small hs (by omega), ok_bind]
  rw [if_neg hb]
  by_cases hq : c = '"'
  · rw [if_pos hq, closingQuoteFrom, if_pos hi, h.byteAt, ok_bind,
      if_neg (mt (lead_eq_iff (by decide)).1 hb), if_pos ((lead_eq_iff (by decide)).2 hq)]
    rfl
  · rw [if_neg hq]
    exact h.pass _ fun j b hj hm => closingQuoteFrom_pass hs hj
      (mt (eq_toUInt8_iff hm (by decide)).1 hb) (mt (eq_toUInt8_iff hm (by decide)).1 hq)

theorem closingQuoteFrom_of_le {i : Nat} (h : width s ≤ i) : closingQuoteFrom s i = .ok none := by
  rw [closingQuoteFrom, if_neg (Nat.not_lt.2 h)]
  rfl

theorem closingQuoteFrom_at (hs : Small s) (h : At s i rest) :
    closingQuoteFrom s i = .ok ((closeQuote? rest).map fun p => i + width p.1) := by
  fun_induction closeQuote? rest generalizing i with
  | case1 =>
    rw [closingQuoteFrom_of_le (Nat.le_of_eq h.eq_width.symm)]
    rfl
  | case2 c rest ih =>
    -- the byte after the backslash may be the first of several
    have hc : At s (i + 1) (c :: rest) := h.cons
    have hin : closingQuoteFrom s (i + 1 + 1) = closingQuoteFrom s (i + 1 + c.utf8Size) :=
      hc.pass_inside _ fun j b hj hb => closingQuoteFrom_pass hs hj
        (ne_toUInt8_of_le hb (by decide)) (ne_toUInt8_of_le hb (by decide))
    rw [closingQuoteFrom_cons hs h, if_pos rfl, hin, ih hc.cons, Option.map_map]
    simp only [Function.comp_def, width_cons, show '\\'.utf8Size = 1 from rfl, Nat.add_assoc]
  | case3 rest =>
    rw [closingQuoteFrom_cons hs h, if_neg (by decide), if_pos rfl]
    rfl
  | case4 c rest hb hq ih =>
    rw [closingQuoteFrom_cons hs h]
    split
    · next hc =>
      subst hc
      cases rest with
      | nil =>
        have := (h.cons_ascii (by decide)).eq_width
        rw [closingQuoteFrom_of_le (by omega)]
        rfl
      | cons d rest => exact absurd rfl fun hd => hb d rest hd rfl
    · rw [ih h.cons, Option.map_map]
      simp only [Function.comp_def, width_cons, Nat.add_assoc]

/-- **The end of a literal is found, at a boundary.** -/
theorem closingQuote_at (hs : Small s) (h : At s i rest) :
    closingQuote s i = .ok ((quoted? rest).map fun p => i + 1 + width p.1) := by
  cases rest with
  | nil =>
    have hb : byte? s i = none := by simpa using h.byte? 0
    simp [closingQuote, hb, quoted?]
  | cons c rest =>
    by_cases hc : c = '"'
    · subst hc
      have hi := h.lt
      have hb : byte? s i = some '"'.toUInt8 := h.byte?_cons
      rw [closingQuote, if_neg (not_not_intro hb), fits_of_small hs (by omega), ok_bind]
      exact closingQuoteFrom_at hs h.cons
    · have hb : byte? s i ≠ some '"'.toUInt8 := by
        rw [h.byte?_cons]
        exact fun he => hc ((lead_eq_iff (by decide)).1 (Option.some.inj he))
      rw [closingQuote, if_pos hb]
      simp [quoted?, hc]

end

theorem le_of_closingQuoteFrom {s : Text} {i j : Nat} (h : closingQuoteFrom s i = .ok (some j)) :
    i ≤ j := by
  fun_induction closingQuoteFrom s i with
  | case1 i hi ih2 ih1 =>
    obtain ⟨b, -, h⟩ := bind_eq_ok_iff.1 h
    split at h
    · obtain ⟨-, -, h⟩ := bind_eq_ok_iff.1 h
      have := ih2 h
      omega
    · split at h
      · cases h
        exact Nat.le_refl _
      · obtain ⟨-, -, h⟩ := bind_eq_ok_iff.1 h
        have := ih1 h
        omega
  | case2 i hi => cases h

theorem lt_of_closingQuote {s : Text} {i j : Nat} (h : closingQuote s i = .ok (some j)) :
    i < j := by
  unfold closingQuote at h
  split at h
  · cases h
  · obtain ⟨-, -, h⟩ := bind_eq_ok_iff.1 h
    exact le_of_closingQuoteFrom h

/-! ## The balancing delimiter -/

/-- The delimiter that balances `depth` open ones and those opened from an offset on. Literals are
passed over. -/
def findMatchingFrom (s : Text) (opened closed : UInt8) (depth i : Nat) : Checked (Option Nat) :=
  if i < width s then do
    let b ← byteAt s i
    if b = '"'.toUInt8 then
      match ← attach (closingQuote s i) with
      | ⟨none, _⟩ => return none
      | ⟨some close, _h⟩ => do
        fits (close + 1)
        findMatchingFrom s opened closed depth (close + 1)
    else if b = opened then do
      fits (depth + 1)
      fits (i + 1)
      findMatchingFrom s opened closed (depth + 1) (i + 1)
    else if b = closed then
      if depth = 0 then return none
      else if depth = 1 then return some i
      else do
        fits (i + 1)
        findMatchingFrom s opened closed (depth - 1) (i + 1)
    else do
      fits (i + 1)
      findMatchingFrom s opened closed depth (i + 1)
  else return none
termination_by width s - i
decreasing_by
  · have := lt_of_closingQuote _h
    omega
  all_goals omega

/-- The delimiter that balances the first opening one from an offset on. -/
def findMatching (s : Text) (start : Nat) (opened closed : UInt8) : Checked (Option Nat) :=
  findMatchingFrom s opened closed 0 start

section

variable {s rest : Text} {i depth : Nat} {opened closed : Char}

theorem findMatchingFrom_of_le {o c : UInt8} (h : width s ≤ i) :
    findMatchingFrom s o c depth i = .ok none := by
  rw [findMatchingFrom, if_neg (Nat.not_lt.2 h)]
  rfl

theorem findMatchingFrom_pass (hs : Small s) {o c b : UInt8} {j : Nat} (h : byte? s j = some b)
    (hq : b ≠ '"'.toUInt8) (ho : b ≠ o) (hc : b ≠ c) :
    findMatchingFrom s o c depth j = findMatchingFrom s o c depth (j + 1) := by
  have hj := lt_of_byte? h
  rw [findMatchingFrom, if_pos hj, byteAt_of_byte? h, ok_bind, if_neg hq, if_neg ho, if_neg hc,
    fits_of_small hs (by omega), ok_bind]

theorem findMatchingFrom_quote (hs : Small s) {o c : UInt8} (h : At s i ('"' :: rest)) :
    findMatchingFrom s o c depth i = match closeQuote? rest with
      | some (raw, _) => findMatchingFrom s o c depth (i + 1 + width raw + 1)
      | none => .ok none := by
  have hq : closingQuote s i = .ok ((closeQuote? rest).map fun p => i + 1 + width p.1) :=
    closingQuote_at hs h
  have hlead : lead '"' = '"'.toUInt8 := lead_of_lt (by decide)
  cases hr : closeQuote? rest with
  | none =>
    rw [hr] at hq
    rw [findMatchingFrom, if_pos h.lt, h.byteAt, ok_bind, if_pos hlead, attach_of_eq hq]
    rfl
  | some p =>
    obtain ⟨raw, t⟩ := p
    rw [hr] at hq
    have hw : i + 1 + width raw + 1 ≤ width s := by
      have := h.add_width
      rw [eq_of_closeQuote? hr] at this
      simp only [width_cons, width_append, show '"'.utf8Size = 1 from rfl] at this
      omega
    rw [findMatchingFrom, if_pos h.lt, h.byteAt, ok_bind, if_pos hlead, attach_of_eq hq]
    show (fits (i + 1 + width raw + 1) >>= fun _ => _) = _
    rw [fits_of_small hs (by omega), ok_bind]

theorem findMatchingFrom_cons (hs : Small s) {c : Char} (h : At s i (c :: rest)) (hd : depth ≤ i)
    (ho : opened.toNat < 0x80) (hc : closed.toNat < 0x80) (hq : c ≠ '"') :
    findMatchingFrom s opened.toUInt8 closed.toUInt8 depth i =
      if c = opened then
        findMatchingFrom s opened.toUInt8 closed.toUInt8 (depth + 1) (i + c.utf8Size)
      else if c = closed then
        match depth with
        | 0 => .ok none
        | 1 => .ok (some i)
        | n + 1 => findMatchingFrom s opened.toUInt8 closed.toUInt8 n (i + c.utf8Size)
      else findMatchingFrom s opened.toUInt8 closed.toUInt8 depth (i + c.utf8Size) := by
  have hi := h.lt
  have hlead : lead c ≠ '"'.toUInt8 := mt (lead_eq_iff (by decide)).1 hq
  by_cases hco : c = opened
  · subst hco
    rw [if_pos rfl, findMatchingFrom, if_pos hi, h.byteAt, ok_bind, if_neg hlead,
      if_pos (lead_of_lt ho), fits_of_small hs (by omega), ok_bind, fits_of_small hs (by omega),
      ok_bind, utf8Size_of_lt ho]
  rw [if_neg hco]
  have hlo : lead c ≠ opened.toUInt8 := mt (lead_eq_iff ho).1 hco
  by_cases hcc : c = closed
  · subst hcc
    rw [if_pos rfl, findMatchingFrom, if_pos hi, h.byteAt, ok_bind, if_neg hlead, if_neg hlo,
      if_pos (lead_of_lt hc), fits_of_small hs (by omega), utf8Size_of_lt hc]
    match depth with
    | 0 => rfl
    | 1 => rfl
    | n + 2 => rfl
  · rw [if_neg hcc]
    exact h.pass _ fun j b hj hm => findMatchingFrom_pass hs hj
      (mt (eq_toUInt8_iff hm (by decide)).1 hq) (mt (eq_toUInt8_iff hm ho).1 hco)
      (mt (eq_toUInt8_iff hm hc).1 hcc)

theorem findMatchingFrom_at (hs : Small s) (h : At s i rest) (hd : depth ≤ i)
    (ho : opened.toNat < 0x80) (hc : closed.toNat < 0x80) :
    findMatchingFrom s opened.toUInt8 closed.toUInt8 depth i =
      .ok ((matching? opened closed depth false rest).map fun p => i + width p.1) := by
  induction hn : rest.length using Nat.strongRecOn generalizing i depth rest with
  | _ n ih =>
  subst hn
  cases rest with
  | nil =>
    rw [findMatchingFrom_of_le (Nat.le_of_eq h.eq_width.symm)]
    rfl
  | cons c rest =>
    rw [matching?_cons]
    split
    · next hq =>
      subst hq
      rw [findMatchingFrom_quote hs h, matching?_literal]
      cases hr : closeQuote? rest with
      | none => rfl
      | some p =>
        obtain ⟨raw, t⟩ := p
        have hrest := eq_of_closeQuote? hr
        have hlen := congrArg List.length hrest
        simp only [List.length_append, List.length_cons] at hlen
        have ht : At s (i + 1 + width raw + 1) t :=
          ((hrest ▸ h.cons_ascii (by decide)).append).cons_ascii (by decide)
        simp only [Option.bind_some, Option.map_map]
        rw [ih _ (by simp only [List.length_cons]; omega) ht (by omega) rfl]
        simp only [Function.comp_def, width_cons, width_append, Nat.add_assoc,
          show '"'.utf8Size = 1 from rfl]
    · next hq =>
      have hstep (d : Nat) (hd : d ≤ i + 1) :
          findMatchingFrom s opened.toUInt8 closed.toUInt8 d (i + c.utf8Size) =
            .ok (((matching? opened closed d false rest).map fun p => (c :: p.1, p.2)).map
              fun p => i + width p.1) := by
        have hc := c.utf8Size_pos
        rw [ih _ (by simp) h.cons (by omega) rfl, Option.map_map]
        simp only [Function.comp_def, width_cons, Nat.add_assoc]
      rw [findMatchingFrom_cons hs h hd ho hc hq]
      split
      · exact hstep (depth + 1) (by omega)
      · split
        · match depth with
          | 0 => rfl
          | 1 => rfl
          | n + 2 => exact hstep (n + 1) (by omega)
        · exact hstep depth (by omega)

/-- **The balancing delimiter of an opening one is found, at a boundary.** -/
theorem findMatching_at (hs : Small s) (h : At s i (opened :: rest)) (ho : opened.toNat < 0x80)
    (hc : closed.toNat < 0x80) (hq : opened ≠ '"') :
    findMatching s i opened.toUInt8 closed.toUInt8 =
      .ok ((matching? opened closed 1 false rest).map fun p => i + 1 + width p.1) := by
  rw [findMatching, findMatchingFrom_cons hs h (Nat.zero_le _) ho hc hq, if_pos rfl,
    utf8Size_of_lt ho, findMatchingFrom_at hs (h.cons_ascii ho) (by omega) ho hc]

end

/-! ## Parts between delimiters -/

/-- A depth of brackets fits a signed number of 32 bits. -/
def fitsDepth (d : Int) : Checked Unit :=
  if -2 ^ 31 ≤ d ∧ d < 2 ^ 31 then .ok () else .error .overflow

/-- Brackets that open. -/
def opens (c : Char) : Bool := c == '(' || c == '[' || c == '{'

/-- Brackets that close. -/
def closes (c : Char) : Bool := c == ')' || c == ']' || c == '}'

/-- The parts from an offset on, the first of which starts at `start`. -/
def splitFrom (s : Text) (delim : UInt8) (depth : Int) (inLiteral : Bool) (start i : Nat) :
    Checked (List Text) :=
  if i < width s then do
    let b ← byteAt s i
    if inLiteral then
      if b = '\\'.toUInt8 then do
        fits (i + 2)
        splitFrom s delim depth true start (i + 2)
      else do
        fits (i + 1)
        splitFrom s delim depth (b != '"'.toUInt8) start (i + 1)
    else if b = '"'.toUInt8 then do
      fits (i + 1)
      splitFrom s delim depth true start (i + 1)
    else if ascii opens b then do
      fitsDepth (depth + 1)
      fits (i + 1)
      splitFrom s delim (depth + 1) false start (i + 1)
    else if ascii closes b then do
      fitsDepth (depth - 1)
      fits (i + 1)
      splitFrom s delim (depth - 1) false start (i + 1)
    else if b = delim && depth == 0 then do
      let part ← slice s start i
      fits (i + 1)
      return part :: (← splitFrom s delim depth false (i + 1) (i + 1))
    else do
      fits (i + 1)
      splitFrom s delim depth false start (i + 1)
  else do
    let tail ← sliceFrom s (min start (width s))
    return if (trim tail).isEmpty then [] else [tail]
termination_by width s - i

/-- The parts between the delimiters outside brackets and literals. -/
def splitTopLevel (s : Text) (delim : UInt8) : Checked (List Text) := splitFrom s delim 0 false 0 0

/-- Parts without a blank last one. -/
def dropBlank (parts : List Text) : List Text :=
  if (parts.getLast?.getD []).all isBlank then parts.dropLast else parts

theorem dropBlank_cons (p : Text) {ps : List Text} (h : ps ≠ []) :
    dropBlank (p :: ps) = p :: dropBlank ps := by
  unfold dropBlank
  rw [List.getLast?_cons_of_ne_nil h]
  split
  · exact List.dropLast_cons_of_ne_nil h
  · rfl

theorem isEmpty_trim (s : Text) : (trim s).isEmpty = allBlank s := by
  rw [Bool.eq_iff_iff, List.isEmpty_iff, ← trimStart_eq_nil_iff]
  constructor
  · intro h
    -- what is left of the start is not blank, so it is not taken off at the end
    cases hs : trimStart s with
    | nil => rfl
    | cons c t =>
      have hc := isBlank_of_trimStart_eq_cons hs
      rw [trim, hs, trimEnd, List.reverse_eq_nil_iff, List.dropWhile_eq_nil_iff] at h
      have := h c (by simp)
      rw [hc] at this
      cases this
  · intro h
    rw [trim, h]
    rfl

theorem lt_of_opens (c : Char) (h : opens c = true) : c.toNat < 0x80 := by
  simp only [opens, Bool.or_eq_true, beq_iff_eq] at h
  rcases h with (rfl | rfl) | rfl <;> decide

theorem lt_of_closes (c : Char) (h : closes c = true) : c.toNat < 0x80 := by
  simp only [closes, Bool.or_eq_true, beq_iff_eq] at h
  rcases h with (rfl | rfl) | rfl <;> decide

theorem depthAfter_eq (n : Int) (c : Char) :
    depthAfter n c = if opens c then n + 1 else if closes c then n - 1 else n := rfl

theorem isBracket_eq (c : Char) : isBracket c = (opens c || closes c) := by
  rw [isBracket, depthAfter_eq]
  cases opens c <;> cases closes c <;> rfl

section

variable {s seg rest : Text} {start i : Nat} {depth : Int} {delim : Char}

theorem splitFrom_of_le {q : Bool} (h : width s ≤ i) (hseg : At s start seg) :
    splitFrom s delim.toUInt8 depth q start i = .ok (dropBlank [seg]) := by
  have := hseg.add_width
  rw [splitFrom, if_neg (Nat.not_lt.2 h), Nat.min_eq_left (by omega), hseg.sliceFrom, ok_bind,
    isEmpty_trim]
  rfl

theorem fitsDepth_of_small (hs : Small s) {d : Int} (hd : d.natAbs ≤ width s) :
    fitsDepth d = .ok () := by
  have : width s < 2 ^ 31 := hs
  exact if_pos (by omega)

theorem splitFrom_literal_pass (hs : Small s) {d b : UInt8} {j : Nat} (h : byte? s j = some b)
    (hb : b ≠ '\\'.toUInt8) (hq : b ≠ '"'.toUInt8) :
    splitFrom s d depth true start j = splitFrom s d depth true start (j + 1) := by
  have hj := lt_of_byte? h
  rw [splitFrom, if_pos hj, byteAt_of_byte? h, ok_bind, if_pos rfl, if_neg hb,
    fits_of_small hs (by omega), ok_bind, bne_iff_ne.2 hq]

theorem splitFrom_code_pass (hs : Small s) {d b : UInt8} {j : Nat} (h : byte? s j = some b)
    (hq : b ≠ '"'.toUInt8) (ho : ascii opens b = false) (hc : ascii closes b = false)
    (hd : ¬(b = d && depth == 0) = true) :
    splitFrom s d depth false start j = splitFrom s d depth false start (j + 1) := by
  have hj := lt_of_byte? h
  rw [splitFrom, if_pos hj, byteAt_of_byte? h, ok_bind, if_neg Bool.false_ne_true, if_neg hq,
    if_neg (by simp [ho]), if_neg (by simp [hc]), if_neg hd, fits_of_small hs (by omega), ok_bind]

theorem splitFrom_literal (hs : Small s) {c : Char} (h : At s i (c :: rest)) :
    splitFrom s delim.toUInt8 depth true start i =
      if c = '\\' then splitFrom s delim.toUInt8 depth true start (i + 2)
      else splitFrom s delim.toUInt8 depth (c != '"') start (i + c.utf8Size) := by
  have hi := h.lt
  by_cases hb : c = '\\'
  · rw [if_pos hb, splitFrom, if_pos hi, h.byteAt, ok_bind, if_pos rfl,
      if_pos ((lead_eq_iff (by decide)).2 hb), fits_of_small hs (by omega), ok_bind]
  rw [if_neg hb]
  by_cases hq : c = '"'
  · subst hq
    rw [splitFrom, if_pos hi, h.byteAt, ok_bind, if_pos rfl,
      if_neg (mt (lead_eq_iff (by decide)).1 hb), fits_of_small hs (by omega), ok_bind]
    rfl
  · rw [bne_iff_ne.2 hq]
    exact h.pass _ fun j b hj hm => splitFrom_literal_pass hs hj
      (mt (eq_toUInt8_iff hm (by decide)).1 hb) (mt (eq_toUInt8_iff hm (by decide)).1 hq)

theorem splitFrom_code (hs : Small s) {c : Char} (h : At s i (c :: rest)) (hd : depth.natAbs ≤ i)
    (hdelim : delim.toNat < 0x80) :
    splitFrom s delim.toUInt8 depth false start i =
      if c = '"' then splitFrom s delim.toUInt8 depth true start (i + c.utf8Size)
      else if isBracket c then
        splitFrom s delim.toUInt8 (depthAfter depth c) false start (i + c.utf8Size)
      else if c = delim && depth == 0 then do
        let part ← slice s start i
        return part :: (← splitFrom s delim.toUInt8 depth false (i + c.utf8Size) (i + c.utf8Size))
      else splitFrom s delim.toUInt8 depth false start (i + c.utf8Size) := by
  have hi := h.lt
  by_cases hq : c = '"'
  · subst hq
    rw [if_pos rfl, splitFrom, if_pos hi, h.byteAt, ok_bind, if_neg Bool.false_ne_true,
      if_pos (lead_of_lt (by decide)), fits_of_small hs (by omega), ok_bind]
    rfl
  rw [if_neg hq, isBracket_eq, depthAfter_eq]
  have hlq : lead c ≠ '"'.toUInt8 := mt (lead_eq_iff (by decide)).1 hq
  have ho (b : UInt8) (hb : b ∈ String.utf8EncodeChar c) : ascii opens b = opens c :=
    onBytes_ascii lt_of_opens c b hb
  have hc (b : UInt8) (hb : b ∈ String.utf8EncodeChar c) : ascii closes b = closes c :=
    onBytes_ascii lt_of_closes c b hb
  cases hopen : opens c with
  | true =>
    rw [splitFrom, if_pos hi, h.byteAt, ok_bind, if_neg Bool.false_ne_true, if_neg hlq,
      if_pos ((ho _ (lead_mem c)).trans hopen), fitsDepth_of_small hs (by omega), ok_bind,
      fits_of_small hs (by omega), ok_bind, utf8Size_of_lt (lt_of_opens c hopen)]
    rfl
  | false =>
  cases hclose : closes c with
  | true =>
    rw [splitFrom, if_pos hi, h.byteAt, ok_bind, if_neg Bool.false_ne_true, if_neg hlq,
      ho _ (lead_mem c), hopen, if_neg Bool.false_ne_true, if_pos ((hc _ (lead_mem c)).trans hclose),
      fitsDepth_of_small hs (by omega), ok_bind, fits_of_small hs (by omega), ok_bind,
      utf8Size_of_lt (lt_of_closes c hclose)]
    rfl
  | false =>
    by_cases hcut : (c = delim && depth == 0) = true
    · obtain ⟨rfl, hdepth⟩ : c = delim ∧ (depth == 0) = true := by simpa using hcut
      rw [splitFrom, if_pos hi, h.byteAt, ok_bind, if_neg Bool.false_ne_true, if_neg hlq,
        ho _ (lead_mem c), hopen, if_neg Bool.false_ne_true, hc _ (lead_mem c), hclose,
        if_neg Bool.false_ne_true, if_pos (by simp [lead_of_lt hdelim, hdepth]),
        fits_of_small hs (by omega), utf8Size_of_lt hdelim, if_neg Bool.false_ne_true, if_pos hcut]
      rfl
    · simp only [Bool.or_self, Bool.false_eq_true, if_false, if_neg hcut]
      refine h.pass _ fun j b hj hm => splitFrom_code_pass hs hj
        (mt (eq_toUInt8_iff hm (by decide)).1 hq) ((ho b hm).trans hopen) ((hc b hm).trans hclose) ?_
      simpa [eq_toUInt8_iff hm hdelim] using hcut

theorem modifyHead_append (seg a : Text) (ps : List Text) :
    (ps.modifyHead (a ++ ·)).modifyHead (seg ++ ·) = ps.modifyHead ((seg ++ a) ++ ·) := by
  cases ps <;> simp

theorem modifyHead_nil_append (ps : List Text) : ps.modifyHead ([] ++ ·) = ps := by
  cases ps <;> rfl

theorem splitFrom_at (hs : Small s) {q : Bool} (h : At s i rest) (hseg : At s start (seg ++ rest))
    (hd : depth.natAbs ≤ i) (hdelim : delim.toNat < 0x80) :
    splitFrom s delim.toUInt8 depth q start i =
      .ok (dropBlank ((topLevelParts delim depth q rest).modifyHead (seg ++ ·))) := by
  fun_induction topLevelParts delim depth q rest generalizing i seg start with
  | case1 n q =>
    rw [splitFrom_of_le (Nat.le_of_eq h.eq_width.symm) hseg]
    simp
  | case2 n c t ih =>
    have hc : At s (i + 1) (c :: t) := h.cons
    have hin := hc.pass_inside (splitFrom s delim.toUInt8 n true start) fun j b hj hb =>
      splitFrom_literal_pass hs hj (ne_toUInt8_of_le hb (by decide))
        (ne_toUInt8_of_le hb (by decide))
    rw [splitFrom_literal hs h, if_pos rfl, hin,
      ih hc.cons (show At s start (seg ++ ['\\', c] ++ t) by simpa using hseg) (by omega)]
    exact congrArg (Except.ok ∘ dropBlank) (modifyHead_append seg ['\\', c] _).symm
  | case3 n c t hb ih =>
    rw [splitFrom_literal hs h]
    split
    · next hc =>
      subst hc
      cases t with
      | nil =>
        have := (h.cons_ascii (by decide)).eq_width
        rw [splitFrom_of_le (by omega) hseg]
        rfl
      | cons d t => exact absurd rfl fun hd => hb d t hd rfl
    · rw [ih h.cons (show At s start (seg ++ [c] ++ t) by simpa using hseg) (by omega)]
      exact congrArg (Except.ok ∘ dropBlank) (modifyHead_append seg [c] _).symm
  | case4 n t ih =>
    rw [splitFrom_code hs h hd hdelim, if_pos rfl,
      ih h.cons (show At s start (seg ++ ['"'] ++ t) by simpa using hseg) (by omega)]
    exact congrArg (Except.ok ∘ dropBlank) (modifyHead_append seg ['"'] _).symm
  | case5 n c t hq hc ih =>
    have hdepth : (depthAfter n c).natAbs ≤ i + c.utf8Size := by
      have := c.utf8Size_pos
      rw [depthAfter_eq]
      split
      · omega
      · split <;> omega
    rw [splitFrom_code hs h hd hdelim, if_neg hq, if_pos hc,
      ih h.cons (show At s start (seg ++ [c] ++ t) by simpa using hseg) hdepth]
    exact congrArg (Except.ok ∘ dropBlank) (modifyHead_append seg [c] _).symm
  | case6 n c t hq hc hcut ih =>
    have hi : i = start + width seg := by
      have h1 := h.add_width
      have h2 := hseg.add_width
      rw [width_append] at h2
      omega
    rw [splitFrom_code hs h hd hdelim, if_neg hq, if_neg hc, if_pos hcut, hseg.slice hi, ok_bind,
      ih h.cons (show At s _ ([] ++ t) from h.cons) (by omega), ok_bind]
    rw [modifyHead_nil_append, List.modifyHead_cons,
      dropBlank_cons _ (topLevelParts_ne_nil _ _ _ _), List.append_nil]
    rfl
  | case7 n c t hq hc hcut ih =>
    rw [splitFrom_code hs h hd hdelim, if_neg hq, if_neg hc, if_neg hcut,
      ih h.cons (show At s start (seg ++ [c] ++ t) by simpa using hseg) (by omega)]
    exact congrArg (Except.ok ∘ dropBlank) (modifyHead_append seg [c] _).symm

/-- **The parts between top-level delimiters are cut at boundaries.** -/
theorem splitTopLevel_eq (hs : Small s) (hdelim : delim.toNat < 0x80) :
    splitTopLevel s delim.toUInt8 = .ok (topLevel delim s) := by
  have h : splitFrom s delim.toUInt8 0 false 0 0 =
      .ok (dropBlank ((topLevelParts delim 0 false s).modifyHead ([] ++ ·))) :=
    splitFrom_at hs (at_zero s) (at_zero s) (Nat.le_refl 0) hdelim
  rw [splitTopLevel, h, modifyHead_nil_append]
  rfl

end

end SpecHarvest.Bytes
