import SpecHarvest.HeaderExpr
import SpecHarvest.Proofs.Assoc
import SpecHarvest.Proofs.Bytes.Cursor

/-!
# Header expressions over bytes

The forms of header expressions read with a cursor, and lists of them cut at byte offsets. Each form
agrees with the reader of `HeaderExpr` (`headerShape_agrees`), and so do the headers of a list under
small bindings (`resolveHeaderList_agrees`).
-/

namespace SpecHarvest.Bytes

open Text Source Http

/-! ## Calls of range helpers -/

/-- What comes before the argument of a range helper, as a reader of characters. -/
def openRange? (s : Text) : Option (Bool × Text) :=
  ((after? ['('] s) >>= fun s => some (true, s)).or ((after? ['$'] s) >>= fun s => some (false, s))

/-- What comes after the argument of a range helper, as a reader of characters. -/
def closeRange? (parenthesised : Bool) (s : Text) : Option Unit :=
  match after? [')'] (trimStart s) with
  | some s => HeaderExpr.atEnd s
  | none => if parenthesised then none else HeaderExpr.atEnd s

theorem rangeArguments?_eq (helper constructor : Text) (arity : Nat) (s : Text) :
    HeaderExpr.rangeArguments? helper constructor arity s = (do
      let s ← blanks? (← word? helper s)
      let (parenthesised, s) ← openRange? s
      let (ks, s) ← HeaderExpr.naturals? arity (← word? constructor (trimStart s))
      closeRange? parenthesised s
      return ks) := by
  unfold HeaderExpr.rangeArguments?
  congr 1
  funext s
  congr 1
  funext s
  have hclose (p : Bool) : (fun u => (HeaderExpr.naturals? arity u).bind fun q =>
      match after? [')'] (trimStart q.2) with
      | some t => (HeaderExpr.atEnd t).bind fun _ => some q.1
      | none => if p then none else (HeaderExpr.atEnd q.2).bind fun _ => some q.1) =
      fun u => (HeaderExpr.naturals? arity u).bind fun q =>
        (closeRange? p q.2).bind fun _ => some q.1 := by
    funext u
    congr 1
    funext q
    rw [closeRange?]
    cases after? [')'] (trimStart q.2) with
    | some t => rfl
    | none => cases p <;> rfl
  cases s with
  | nil => rfl
  | cons d t =>
    by_cases hp : d = '('
    · subst hp
      exact congrArg (word? constructor (trimStart t)).bind (hclose true)
    by_cases hd : d = '$'
    · subst hd
      exact congrArg (word? constructor (trimStart t)).bind (hclose false)
    have hn : openRange? (d :: t) = none := by
      simp [openRange?, after?, Ne.symm hp, Ne.symm hd]
    rw [hn]
    split
    · next h => exact absurd (List.cons.inj h).1 hp
    · next h => exact absurd (List.cons.inj h).1 hd
    · rfl

/-! ## The forms of expressions -/

/-- The end of an expression, where only white space may follow. -/
def Cursor.ends (c : Cursor) : Found Unit := do
  if ← c.atEnd then return () else failure

/-- A tuple of two string literals, neither of them empty. -/
def tupleShape (s : Text) : Found HeaderExpr := do
  let c ← (Cursor.start s).eat ['(']
  let c ← c.skip
  let (name, c) ← c.takeNonempty
  let c ← c.skip
  let c ← c.eat [',']
  let c ← c.skip
  let (value, c) ← c.takeNonempty
  let c ← c.skip
  let c ← c.eat [')']
  c.ends
  return .tuple (unescape name) (unescape value)

/-- The argument of a helper that takes one string literal, not empty. -/
def helperWithString (helper s : Text) : Found Text := do
  let c ← (Cursor.start s).eatWord helper
  let c ← c.blanks
  let (raw, c) ← c.takeNonempty
  c.ends
  return unescape raw

/-- An accept helper. -/
def acceptShape (s : Text) : Found HeaderExpr := .accept <$> helperWithString "acceptHdrs".toList s

/-- A token helper. -/
def bearerShape (s : Text) : Found HeaderExpr :=
  .bearer <$> helperWithString "authHeaderJWT".toList s

/-- The plan helper, with nothing around it. -/
def planShape (s : Text) : Found HeaderExpr := if s = "planHdr".toList then return .plan else failure

/-- So many numbers, each after white space. -/
def takeNaturals : Nat → Cursor → Found (List Nat × Cursor)
  | 0, c => return ([], c)
  | n + 1, c => do
    let c ← c.blanks
    let (k, c) ← c.takeNatural
    let (ks, c) ← takeNaturals n c
    return (k :: ks, c)

/-- What comes before the argument of a range helper, and whether it is a parenthesis. -/
def openRange (c : Cursor) : Found (Bool × Cursor) :=
  (do return (true, ← c.eat ['('])) <|> (do return (false, ← c.eat ['$']))

/-- What comes after the argument of a range helper. -/
def closeRange (parenthesised : Bool) (c : Cursor) : Found Unit := do
  let c ← c.skip
  match ← attempt (c.eat [')']) with
  | some c => (← c.skip).ends
  | none => if parenthesised then failure else c.ends

/-- The numbers in a call of a range helper. -/
def rangeCall (helper constructor : Text) (arity : Nat) (s : Text) : Found (List Nat) := do
  let c ← (Cursor.start s).eatWord helper
  let c ← c.blanks
  let (parenthesised, c) ← openRange c
  let c ← c.skip
  let c ← c.eatWord constructor
  let (ks, c) ← takeNaturals arity c
  closeRange parenthesised c
  return ks

/-- A range with both ends. -/
def rangeFromToShape (s : Text) : Found HeaderExpr := do
  let ks ← rangeCall "rangeHdrs".toList "ByteRangeFromTo".toList 2 s
  let first ← (entryAt ks 0 : Checked Nat)
  let last ← (entryAt ks 1 : Checked Nat)
  return .rangeFromTo first last

/-- A range without an end. -/
def rangeFromShape (s : Text) : Found HeaderExpr := do
  let ks ← rangeCall "rangeHdrs".toList "ByteRangeFrom".toList 1 s
  let first ← (entryAt ks 0 : Checked Nat)
  return .rangeFrom first

/-- A range with both ends and an exact count. -/
def rangeWithCountShape (s : Text) : Found HeaderExpr := do
  let ks ← rangeCall "rangeHdrsWithCount".toList "ByteRangeFromTo".toList 2 s
  let first ← (entryAt ks 0 : Checked Nat)
  let last ← (entryAt ks 1 : Checked Nat)
  return .rangeWithCount first last

/-- An identifier alone. -/
def bindingShape (s : Text) : Found HeaderExpr :=
  if !s.isEmpty && (bytes s).all (ascii isIdentChar) then return .binding s else failure

/-- The readers of the forms, in the order in which they are tried. -/
def headerShapes : List (Text → Found HeaderExpr) :=
  [tupleShape, acceptShape, bearerShape, planShape, rangeFromToShape, rangeFromShape,
    rangeWithCountShape, bindingShape]

/-- The expression that a text, white space around it aside, is written as. -/
def headerShape (s : Text) : Found HeaderExpr := firstOf headerShapes (trim s)

section

variable {c : Cursor} {s r : Text}

theorem Cursor.Reads.ends (h : c.Reads r) : Agrees Eq c.ends (HeaderExpr.atEnd r) := by
  refine .lift h.atEnd ?_
  rw [HeaderExpr.atEnd]
  split
  · exact .pure rfl
  · exact .failure

theorem tupleShape_agrees (hs : Small s) : Agrees Eq (tupleShape s) (HeaderExpr.tuple? s) := by
  refine ((Cursor.reads_start hs).eat _).bind fun c _ hc => ?_
  refine hc.skip_bind fun c hc => hc.takeNonempty.bind_read fun name c _ hc => ?_
  refine hc.skip_bind fun c hc => (hc.eat _).bind fun c _ hc => ?_
  refine hc.skip_bind fun c hc => hc.takeNonempty.bind_read fun value c _ hc => ?_
  refine hc.skip_bind fun c hc => (hc.eat _).bind fun c _ hc => ?_
  exact hc.ends.bind fun _ _ _ => .pure rfl

theorem helperWithString_agrees (helper : Text) (hs : Small s) :
    Agrees Eq (helperWithString helper s) (HeaderExpr.stringArgument? helper s) := by
  refine ((Cursor.reads_start hs).eatWord _).bind fun c _ hc => hc.blanks.bind fun c _ hc => ?_
  refine hc.takeNonempty.bind_read fun raw c _ hc => ?_
  exact hc.ends.bind fun _ _ _ => .pure rfl

theorem acceptShape_agrees (hs : Small s) : Agrees Eq (acceptShape s) (HeaderExpr.accept? s) :=
  (helperWithString_agrees _ hs).map _

theorem bearerShape_agrees (hs : Small s) : Agrees Eq (bearerShape s) (HeaderExpr.bearer? s) :=
  (helperWithString_agrees _ hs).map _

theorem planShape_agrees (s : Text) : Agrees Eq (planShape s) (HeaderExpr.plan? s) := by
  rw [planShape, HeaderExpr.plan?]
  split
  · exact .pure rfl
  · exact .failure

theorem takeNaturals_agrees (n : Nat) (h : c.Reads r) :
    Agrees Cursor.SameRead (takeNaturals n c) (HeaderExpr.naturals? n r) := by
  induction n generalizing c r with
  | zero => exact .pure ⟨rfl, h⟩
  | succ n ih =>
    refine h.blanks.bind fun c _ hc => hc.takeNatural.bind_read fun k c _ hc => ?_
    exact (ih hc).bind_read fun ks c _ hc => .pure ⟨rfl, hc⟩

theorem openRange_agrees (h : c.Reads r) :
    Agrees Cursor.SameRead (openRange c) (openRange? r) := by
  refine .orElse ((h.eat _).bind fun c _ hc => ?_) ((h.eat _).bind fun c _ hc => ?_)
  · exact .pure ⟨rfl, hc⟩
  · exact .pure ⟨rfl, hc⟩

theorem allBlank_trimStart (t : Text) : allBlank (trimStart t) = allBlank t := by
  have h : allBlank t = (allBlank (t.takeWhile isBlank) && allBlank (trimStart t)) := by
    conv_lhs => rw [← takeWhile_append_trimStart t, allBlank, List.all_append]
    rfl
  rw [h, allBlank_takeWhile, Bool.true_and]

theorem closeRange_agrees (parenthesised : Bool) (h : c.Reads r) :
    Agrees Eq (closeRange parenthesised c) (closeRange? parenthesised r) := by
  refine h.skip_bind fun c hc => (hc.eat _).attempt fun o' ho => ?_
  rw [closeRange?]
  generalize after? [')'] (trimStart r) = o at ho
  cases ho with
  | none =>
    show Agrees Eq (if parenthesised then _ else _) (if parenthesised then _ else _)
    split
    · exact .failure
    · rw [HeaderExpr.atEnd, ← allBlank_trimStart r]
      exact hc.ends
  | some hc =>
    refine hc.skip_bind fun c hc => ?_
    show Agrees Eq c.ends (if allBlank _ then _ else _)
    rw [← allBlank_trimStart]
    exact hc.ends

theorem rangeCall_agrees (helper constructor : Text) (arity : Nat) (hs : Small s) :
    Agrees Eq (rangeCall helper constructor arity s)
      (HeaderExpr.rangeArguments? helper constructor arity s) := by
  rw [rangeArguments?_eq]
  refine ((Cursor.reads_start hs).eatWord _).bind fun c _ hc => hc.blanks.bind fun c _ hc => ?_
  refine (openRange_agrees hc).bind_read fun parenthesised c _ hc => ?_
  refine hc.skip_bind fun c hc => (hc.eatWord _).bind fun c _ hc => ?_
  refine (takeNaturals_agrees arity hc).bind_read fun ks c r hc => ?_
  exact (closeRange_agrees parenthesised hc).bind fun _ _ _ => .pure rfl

theorem length_of_naturals? {n : Nat} {t : Text} {ks : List Nat}
    (h : HeaderExpr.naturals? n s = some (ks, t)) : ks.length = n := by
  induction n generalizing s ks with
  | zero =>
    cases h
    rfl
  | succ n ih =>
    simp only [HeaderExpr.naturals?, Option.bind_eq_bind, Option.bind_eq_some_iff] at h
    obtain ⟨_, -, ⟨k, _⟩, -, ⟨ks', t'⟩, hks, he⟩ := h
    cases he
    simp [ih hks]

theorem length_of_rangeArguments? {helper constructor : Text} {arity : Nat} {ks : List Nat}
    (h : HeaderExpr.rangeArguments? helper constructor arity s = some ks) : ks.length = arity := by
  rw [rangeArguments?_eq] at h
  simp only [Option.bind_eq_bind, Option.bind_eq_some_iff] at h
  obtain ⟨_, -, _, -, _, -, _, -, ⟨ks', t⟩, hks, -, -, he⟩ := h
  cases he
  exact length_of_naturals? hks

theorem rangeFromToShape_agrees (hs : Small s) :
    Agrees Eq (rangeFromToShape s) (HeaderExpr.rangeFromTo? s) := by
  have h := rangeCall_agrees "rangeHdrs".toList "ByteRangeFromTo".toList 2 hs
  rw [HeaderExpr.rangeFromTo?]
  cases hk : HeaderExpr.rangeArguments? "rangeHdrs".toList "ByteRangeFromTo".toList 2 s with
  | none => exact (hk ▸ h).none_bind
  | some ks =>
    rw [hk] at h
    match ks, length_of_rangeArguments? hk with
    | [first, last], _ => exact h.some_bind (.pure rfl)

theorem rangeFromShape_agrees (hs : Small s) :
    Agrees Eq (rangeFromShape s) (HeaderExpr.rangeFrom? s) := by
  have h := rangeCall_agrees "rangeHdrs".toList "ByteRangeFrom".toList 1 hs
  rw [HeaderExpr.rangeFrom?]
  cases hk : HeaderExpr.rangeArguments? "rangeHdrs".toList "ByteRangeFrom".toList 1 s with
  | none => exact (hk ▸ h).none_bind
  | some ks =>
    rw [hk] at h
    match ks, length_of_rangeArguments? hk with
    | [first], _ => exact h.some_bind (.pure rfl)

theorem rangeWithCountShape_agrees (hs : Small s) :
    Agrees Eq (rangeWithCountShape s) (HeaderExpr.rangeWithCount? s) := by
  have h := rangeCall_agrees "rangeHdrsWithCount".toList "ByteRangeFromTo".toList 2 hs
  rw [HeaderExpr.rangeWithCount?]
  cases hk : HeaderExpr.rangeArguments? "rangeHdrsWithCount".toList
      "ByteRangeFromTo".toList 2 s with
  | none => exact (hk ▸ h).none_bind
  | some ks =>
    rw [hk] at h
    match ks, length_of_rangeArguments? hk with
    | [first, last], _ => exact h.some_bind (.pure rfl)

theorem bindingShape_agrees (s : Text) :
    Agrees Eq (bindingShape s) (HeaderExpr.binding? s) := by
  rw [bindingShape, HeaderExpr.binding?, (onBytes_ascii lt_of_isIdentChar).all]
  split
  · exact .pure rfl
  · exact .failure

theorem headerShape_agrees (hs : Small s) :
    Agrees Eq (headerShape s) (HeaderExpr.parse? s) := by
  have ht : Small (trim s) := hs.of_sublist (trim_sublist s)
  refine firstOf_agrees ?_
  refine .cons (tupleShape_agrees ht) (.cons (acceptShape_agrees ht) ?_)
  refine .cons (bearerShape_agrees ht) (.cons (planShape_agrees _) ?_)
  refine .cons (rangeFromToShape_agrees ht) (.cons (rangeFromShape_agrees ht) ?_)
  exact .cons (rangeWithCountShape_agrees ht) (.cons (bindingShape_agrees _) .nil)

end

/-! ## The headers of expressions -/

/-- The headers of an expression under bindings. -/
def resolveHeader (bindings : Bindings) (s : Text) : Found (List Header) := do
  let e ← headerShape s
  match e.headers with
  | .inl hs => return hs
  | .inr name =>
    match _h : Assoc.get? name bindings with
    | none => failure
    | some bound => resolveHeader (Assoc.erase name bindings) bound
termination_by bindings.length
decreasing_by exact Assoc.length_erase_lt _h

/-- The headers of a list of expressions, or of one expression without brackets. -/
def resolveHeaderList (bindings : Bindings) (raw : Text) : Found (List Header) := do
  let s := trim raw
  if s = "[]".toList then return []
  else
    match after? ['['] s with
    | none => resolveHeader bindings s
    | some opened =>
      match before? [']'] opened with
      | none => failure
      | some inner => do
        let elements ← splitTopLevel (trim inner) ','.toUInt8
        let hss ← collect (resolveHeader bindings) elements
        return hss.flatten

/-- Every binding is to a small text. -/
def SmallBindings (bindings : Bindings) : Prop := ∀ e ∈ bindings, Small e.2

section

variable {bindings : Bindings} {s : Text}

theorem SmallBindings.of_get? (hb : SmallBindings bindings) {name bound : Text}
    (h : Assoc.get? name bindings = some bound) : Small bound :=
  hb _ (Assoc.mem_of_get? h)

theorem SmallBindings.set (hb : SmallBindings bindings) {expr : Text} (he : Small expr)
    (name : Text) : SmallBindings (Assoc.set name expr bindings) := by
  intro e h
  rcases Assoc.mem_of_mem_set h with rfl | h
  · exact he
  · exact hb e h

theorem SmallBindings.erase (hb : SmallBindings bindings) (name : Text) :
    SmallBindings (Assoc.erase name bindings) :=
  fun e he => hb e (List.mem_of_mem_filter he)

theorem resolveHeader_agrees (hs : Small s) (hb : SmallBindings bindings) :
    Agrees Eq (resolveHeader bindings s) (HeaderExpr.resolve? bindings s) := by
  fun_induction HeaderExpr.resolve? bindings s with
  | case1 bindings s hp =>
    rw [resolveHeader]
    exact (hp ▸ headerShape_agrees hs).none_bind
  | case2 bindings s e hp hs' he =>
    rw [resolveHeader]
    refine (hp ▸ headerShape_agrees hs).some_bind ?_
    rw [he]
    exact .pure rfl
  | case3 bindings s e hp name he hn =>
    rw [resolveHeader]
    refine (hp ▸ headerShape_agrees hs).some_bind ?_
    rw [he]
    show Agrees Eq (match _h : Assoc.get? name bindings with | none => _ | some _ => _) none
    split
    · exact .failure
    · next h => exact absurd (hn.symm.trans h) (by simp)
  | case4 bindings s e hp name he bound hn ih =>
    rw [resolveHeader]
    refine (hp ▸ headerShape_agrees hs).some_bind ?_
    rw [he]
    show Agrees Eq (match _h : Assoc.get? name bindings with | none => _ | some _ => _) _
    split
    · next h => exact absurd (hn.symm.trans h) (by simp)
    · next h =>
      cases Option.some.inj (hn.symm.trans h)
      exact ih (hb.of_get? hn) (hb.erase name)

theorem resolveHeaderList_agrees (hs : Small s) (hb : SmallBindings bindings) :
    Agrees Eq (resolveHeaderList bindings s) (HeaderExpr.resolveList? bindings s) := by
  have ht : Small (trim s) := hs.of_sublist (trim_sublist s)
  rw [resolveHeaderList, HeaderExpr.resolveList?]
  generalize trim s = t at ht
  by_cases hempty : t = "[]".toList
  · subst hempty
    exact .pure rfl
  rw [if_neg hempty]
  cases t with
  | nil => exact resolveHeader_agrees ht hb
  | cons c t =>
    by_cases hc : c = '['
    · subst hc
      show Agrees Eq (match before? [']'] t with | none => _ | some _ => _)
        (before? [']'] t >>= fun _ => _)
      cases hin : before? [']'] t with
      | none => exact .failure
      | some inner =>
        have hinner : Small (trim inner) := by
          refine ht.of_sublist ((trim_sublist inner).trans ?_)
          rw [before?_eq_some_iff.1 hin]
          exact (List.sublist_append_left _ _).trans (List.sublist_cons_self _ _)
        refine .lift (splitTopLevel_eq hinner (by decide)) ?_
        refine (collect_agrees fun e he => ?_).bind fun hss _ h => .pure (congrArg _ h)
        exact resolveHeader_agrees (hinner.of_sublist (sublist_of_mem_topLevel he)) hb
    · have hafter : after? ['['] (c :: t) = none := by simp [after?, Ne.symm hc]
      rw [hafter]
      show Agrees Eq (resolveHeader bindings (c :: t)) _
      split
      · next h => exact absurd (List.cons.inj h).1 hc
      · exact resolveHeader_agrees ht hb

end

end SpecHarvest.Bytes
