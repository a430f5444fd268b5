import SpecHarvest.Proofs.Bytes.Matcher
import SpecHarvest.Proofs.Bytes.Request
import SpecHarvest.Proofs.ExpectedExpr.Body

/-!
# Expected responses over bytes

The body literal is cut out at its quotes, and the record of match attributes is looked for brace by
brace: the search goes on one byte after a brace that opens no such record, and a brace is one byte
(`matchAttributes_at`). `parseExpected_agrees`: from a small text the expectation is the one that
`Expected.parse?` reads.
-/

namespace SpecHarvest.Bytes

open Text Source ExpectedExpr

/-! ## Body and record -/

/-- The body to compare with, which may be none. -/
def expectedBody (s : Text) : Found (Option Json.Value) := do
  match ← quasiValue s with
  | some v => return some v
  | none =>
    if startsWith ['"'] s then do
      let close ← OptionT.mk (closingQuote s 0)
      let raw ← slice s 1 close
      let text := unescape raw
      return some ((Json.Value.parse? text).getD (.string text))
    else return none

theorem le_of_sliceFrom {s rest : Text} {i : Nat} (h : sliceFrom s i = .ok rest) :
    i ≤ width s := by
  unfold sliceFrom at h
  split at h
  · next hcut =>
    obtain ⟨rfl, rfl⟩ := cutAt?_eq_some hcut
    rw [width_append]
    exact Nat.le_add_right _ _
  · cases h

/-- What the braces at an offset enclose. -/
def braced (s : Text) (i : Nat) : Found Text := do
  let close ← closingBracket s i '{' '}'
  slice s (i + 1) close

/-- The first record of match attributes from an offset on. -/
def matchAttributes (s : Text) (start : Nat) : Checked (Option Text) := do
  let ⟨rest, _h⟩ ← attach (sliceFrom s start)
  match cut? ['{'] rest with
  | none => return none
  | some (skipped, _) => do
    let opening := start + width skipped
    fits (opening + 1)
    let tail ← sliceFrom s (opening + 1)
    if matchFields.any (startsWith · (trimStart tail)) then (braced s opening).run
    else matchAttributes s (opening + 1)
termination_by width s + 1 - start
decreasing_by
  have := le_of_sliceFrom _h
  omega

section

variable {s rest : Text} {i : Nat}

theorem expectedBody_agrees (hs : Small s) : Agrees Eq (expectedBody s) (body? s) := by
  rw [expectedBody, body?]
  refine quasiValue_bind (g := fun v => some (some v)) hs (fun v => .pure rfl) ?_
  show Agrees Eq (if startsWith ['"'] s then _ else _) (if startsWith ['"'] s then _ else _)
  split
  · have hquote := closingQuote_at hs (at_zero s)
    cases hq : quoted? s with
    | none => exact .missing (by rw [hquote, hq]; rfl)
    | some p =>
      obtain ⟨raw, r⟩ := p
      have hat : At s 1 (raw ++ '"' :: r) := ⟨['"'], (quoted?_eq_some_iff.1 hq).2, rfl⟩
      refine .found (a := 0 + 1 + width raw) (by rw [hquote, hq]; rfl) ?_
      exact .lift (hat.slice (by omega)) (.pure rfl)
  · exact .pure rfl

theorem braced_agrees (hs : Small s) (h : At s i ('{' :: rest)) :
    Agrees SameText (braced s i) ((matching? '{' '}' 1 false rest).map (·.1)) := by
  refine (closingBracket_agrees hs h (by decide) (by decide) (by decide)).bind_map ?_
  rintro close ⟨inner, r⟩ ⟨hat, hclose⟩
  obtain rfl : close = i + 1 + width inner := hclose
  have hinner : At s (i + 1) (inner ++ '}' :: r) := hat.cons_ascii (by decide)
  refine .lifted (hinner.slice rfl) ⟨rfl, hs.of_sublist ?_⟩
  exact (List.sublist_append_left _ _).trans hinner.sublist

theorem matchAttributes_of_at (h : At s i rest) : matchAttributes s i =
    ((cut? ['{'] rest).map fun p => i + width p.1).elim (.ok none) (fun opening => do
      fits (opening + 1)
      let tail ← sliceFrom s (opening + 1)
      if matchFields.any (startsWith · (trimStart tail)) then (braced s opening).run
      else matchAttributes s (opening + 1)) := by
  rw [matchAttributes, attach_of_eq h.sliceFrom, ok_bind]
  cases hc : cut? ['{'] rest with
  | none => simp only [hc]; rfl
  | some p => simp only [hc]; rfl

/-- The search for a record finds the first one, at a boundary. -/
theorem matchAttributes_at (hs : Small s) (h : At s i rest) :
    Agrees SameText (OptionT.mk (matchAttributes s i)) (attributes? rest) := by
  have hlen := h.add_width
  induction rest generalizing i with
  | nil =>
    rw [matchAttributes_of_at h]
    exact .failure
  | cons c rest ih =>
    by_cases hc : c = '{'
    · subst hc
      have hat : At s (i + 1) rest := h.cons_ascii (by decide)
      have hw := hat.add_width
      have hcut : cut? ['{'] ('{' :: rest) = some ([], rest) := rfl
      rw [matchAttributes_of_at h, hcut, attributes?, Option.map_some, Option.elim_some, width_nil,
        Nat.add_zero, fits_of_small hs (by omega), ok_bind, hat.sliceFrom, ok_bind,
        decide_eq_true rfl, Bool.true_and]
      split
      · exact braced_agrees hs h
      · exact ih hat hw
    · have hskip : matchAttributes s i = matchAttributes s (i + c.utf8Size) := by
        have hcut : cut? ['{'] (c :: rest) = (cut? ['{'] rest).map fun p => (c :: p.1, p.2) := by
          simp [cut?, after?, Ne.symm hc]
        rw [matchAttributes_of_at h, matchAttributes_of_at h.cons, hcut, Option.map_map]
        simp only [Function.comp_def, width_cons, Nat.add_assoc]
      rw [hskip, attributes?, decide_eq_false hc, Bool.false_and, if_neg Bool.false_ne_true]
      exact ih h.cons h.cons.add_width

end

/-! ## Fields of a record -/

/-- What follows a field and its equals sign in a record. -/
def fieldValue (block name : Text) : Found Text := do
  let tail ← afterWord block name
  let c ← (Cursor.start tail).skip
  let c ← c.eat ['=']
  let c ← c.skip
  c.rest

/-- The list at the front of a text, brackets included. -/
def leadingList (s : Text) : Found Text := do
  if startsWith ['['] s then do
    let close ← closingBracket s 0 '[' ']'
    let stop ← add close 1
    slice s 0 stop
  else failure

/-- The status of a record. -/
def recordStatus (block : Text) : Found Nat := do
  match ← attempt (fieldValue block "matchStatus".toList) with
  | some value => do
    let (n, _) ← (Cursor.start value).takeNatural
    OptionT.mk (.ok (status? n))
  | none => return defaultStatus

/-- The list of header matchers of a record. -/
def recordMatchers (block : Text) : Found HeaderMatchers := do
  let value ← fieldValue block "matchHeaders".toList
  let list ← leadingList value
  matchHeaders list

/-- The expectation that a text states. -/
def parseExpected (expr : Text) : Found Expected := do
  let s := trim expr
  if !s.isEmpty && (bytes s).all (ascii Char.isDigit) then do
    let (n, _) ← (OptionT.mk (.ok (natural? s)) : Found (Nat × Text))
    let status ← (OptionT.mk (.ok (status? n)) : Found Nat)
    return .ofStatus status
  else do
    let body ← expectedBody s
    match ← attempt (OptionT.mk (matchAttributes s 0)) with
    | none => return { Expected.ofStatus defaultStatus with body := body }
    | some block => do
      let status ← recordStatus block
      let matchers := (← attempt (recordMatchers block)).getD (.ofList [])
      return {
        status := status
        body := body
        bodyExact := true
        headers := matchers.exact
        headersAbsent := matchers.absent
        headersContain := matchers.contain }

section

variable {s block name : Text}

theorem fieldValue_agrees (hw : IsWord name) (hs : Small block) :
    Agrees SameText (fieldValue block name) (field? name block) := by
  refine (afterWord_agrees hw hs).bind_of ?_
  rintro tail _ htail rfl
  have ht : Small tail := hs.of_sublist (sublist_of_keyword? htail)
  refine (Cursor.reads_start ht).skip_bind fun c hc => (hc.eat ['=']).bind fun c r hc => ?_
  exact hc.skip_bind fun c hc => .lifted hc.rest ⟨rfl, hc.small⟩

theorem leadingList_agrees (hs : Small s) : Agrees SameText (leadingList s) (listAt? s) := by
  cases s with
  | nil => exact .failure
  | cons c t =>
    by_cases hc : c = '['
    · subst hc
      refine (closingBracket_agrees hs (at_zero _) (by decide) (by decide) (by decide)).bind_map ?_
      rintro close ⟨inner, r⟩ ⟨hat, hclose⟩
      obtain rfl : close = 0 + 1 + width inner := hclose
      have hlist : At ('[' :: t) 0 (('[' :: inner ++ [']']) ++ r) := by simpa using hat
      have hlen := hlist.append.add_width
      have hw := width_list inner
      have hsmall : width ('[' :: t) < 2 ^ 31 := hs
      refine .lift (add_of_lt (by omega)) (.lifted (hlist.slice (by omega)) ⟨rfl, ?_⟩)
      exact hs.of_sublist ((List.sublist_append_left _ _).trans hlist.sublist)
    · have hstart : startsWith ['['] (c :: t) = false := by simp [startsWith, after?, Ne.symm hc]
      rw [leadingList, hstart, listAt?, bracketed?, if_neg hc]
      exact .failure

theorem recordStatus_agrees (hs : Small block) :
    Agrees Eq (recordStatus block) (statusOf? block) := by
  have hfield : Agrees SameText (fieldValue block _) (field? "matchStatus".toList block) :=
    fieldValue_agrees (by decide) hs
  rw [recordStatus, statusOf?]
  generalize field? "matchStatus".toList block = o' at hfield ⊢
  refine hfield.attempt fun o ho => ?_
  cases ho with
  | none => exact .pure rfl
  | some h =>
    obtain ⟨rfl, hv⟩ := h
    exact (Cursor.reads_start hv).takeNatural.bind_read fun n c r hc => Agrees.eq_iff.2 rfl

theorem recordMatchers_agrees (hs : Small block) : Agrees Eq (recordMatchers block)
    (((field? "matchHeaders".toList block).bind listAt?).bind HeaderMatchers.parse?) := by
  rw [Option.bind_assoc]
  refine (fieldValue_agrees (by decide) hs).bind ?_
  rintro value _ ⟨rfl, hv⟩
  refine (leadingList_agrees hv).bind ?_
  rintro list _ ⟨rfl, hl⟩
  exact matchHeaders_agrees hl

/-- **The expectation of a text is read without a fault.** -/
theorem parseExpected_agrees (hs : Small s) :
    Agrees Eq (parseExpected s) (Expected.parse? s) := by
  have ht : Small (trim s) := hs.of_sublist (trim_sublist s)
  rw [parseExpected, Expected.parse?_eq]
  generalize trim s = t at ht ⊢
  rw [(onBytes_ascii lt_of_isDigit).all]
  split
  · refine (Agrees.eq_iff.2 rfl).bind ?_
    rintro ⟨n, r⟩ _ rfl
    exact (Agrees.eq_iff.2 rfl).bind_map fun status _ h => .pure (h ▸ rfl)
  · refine (expectedBody_agrees ht).bind ?_
    rintro body _ rfl
    have hrecord := matchAttributes_at ht (at_zero t)
    generalize attributes? t = o' at hrecord ⊢
    refine hrecord.attempt fun o ho => ?_
    cases ho with
    | none => exact .pure rfl
    | @some block _ h =>
      obtain ⟨rfl, hb⟩ := h
      refine (recordStatus_agrees hb).bind_map ?_
      rintro status _ rfl
      exact (recordMatchers_agrees hb).attempt_eq (.pure rfl)

end

end SpecHarvest.Bytes
