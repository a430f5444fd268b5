import SpecHarvest.HeaderMatcher
import SpecHarvest.Proofs.Bytes.Keyword

/-!
# Header matchers over bytes

The forms of header matchers, cut at the byte offsets of operators and quotes. Each agrees with the
reader of `HeaderMatcher` (`resolveMatcher_agrees`), and so do the matchers of a list
(`matchHeaders_agrees`).
-/

namespace SpecHarvest.Bytes

open Text Source Http

/-- The offset of the last occurrence of a character. -/
def findLast (d : Char) (s : Text) : Found Nat :=
  OptionT.mk (.ok ((cutLast? d s).map fun p => width p.1))

/-- `"Name" <:> "Value"` anywhere in the expression. -/
def exactInfix (s : Text) : Found HeaderMatcher := do
  let op ← find "<:>".toList s
  let left ← slice s 0 op
  let stop ← add op 3
  let right ← sliceFrom s stop
  match before? ['"'] (trimEnd left) with
  | none => failure
  | some l => do
    let opening ← findLast '"' l
    let start ← add opening 1
    let name ← sliceFrom l start
    let (value, _) ← (Cursor.start (trimStart right)).takeQuoted
    if name.isEmpty || value.isEmpty then failure
    else return .exact (unescape name) (unescape value)

/-- The argument of the helper for absent headers. -/
def absentArg (s : Text) : Found Cursor := do
  let tail ← afterWord s "matchHeaderAbsent".toList
  (Cursor.start tail).blanks

/-- `matchHeaderAbsent hContentType` -/
def absentContentType (s : Text) : Found HeaderMatcher := do
  let c ← absentArg s
  let _ ← c.eatWord "hContentType".toList
  return .absent HeaderMatcher.contentType

/-- `matchHeaderAbsent "Name"` -/
def absentNamed (s : Text) : Found HeaderMatcher := do
  let c ← absentArg s
  let (name, _) ← c.takeNonempty
  return .absent (unescape name)

/-- The value of the first helper for a content type that a text names. -/
def findHelper (s : Text) : List (Text × Text) → Checked (Option Text)
  | [] => return none
  | (helper, value) :: helpers => do
    if (← findWord s helper 0).isSome then return some value else findHelper s helpers

/-- A helper for a content type, anywhere in the expression. -/
def contentTypeHelper (s : Text) : Found HeaderMatcher := do
  let value ← OptionT.mk (findHelper s HeaderMatcher.contentTypes)
  return .exact HeaderMatcher.contentType value

/-- The readers of the forms, in the order in which they are tried. -/
def matcherShapes : List (Text → Found HeaderMatcher) :=
  [exactInfix, absentContentType, absentNamed, contentTypeHelper]

/-- The matcher that a text, white space around it aside, is written as. -/
def resolveMatcher (s : Text) : Found HeaderMatcher := firstOf matcherShapes (trim s)

/-- The matchers between commas. -/
def matcherElements (inner : Text) : Found HeaderMatchers := do
  let elements ← splitTopLevel inner ','.toUInt8
  return .ofList (← collect resolveMatcher elements)

/-- The matchers of a list, brackets around it or not. -/
def matchHeaders (raw : Text) : Found HeaderMatchers :=
  match after? ['['] (trim raw) with
  | some opened =>
    match before? [']'] opened with
    | some inner => matcherElements inner
    | none => failure
  | none => matcherElements (trim raw)

section

variable {s : Text}

theorem findLast_agrees (d : Char) (s : Text) :
    Agrees (fun i p => At s i (d :: p.2)) (findLast d s) (cutLast? d s) := by
  refine ⟨_, rfl, ?_⟩
  cases hc : cutLast? d s with
  | none => exact .none
  | some p => exact .some ⟨p.1, (cutLast?_eq_some_iff.1 hc).1, rfl⟩

theorem exactInfix_agrees (hs : Small s) :
    Agrees Eq (exactInfix s) (HeaderMatcher.exactPair? s) := by
  refine (find_agrees _ s).bind ?_
  rintro op ⟨left, right⟩ hop
  have hstop : At s (op + 3) right := hop.at.append
  have hlen := hstop.add_width
  have hsmall : width s < 2 ^ 31 := hs
  refine .lift hop.slice (.lift (add_of_lt (by omega)) (.lift hstop.sliceFrom ?_))
  show Agrees Eq (match before? ['"'] (trimEnd left) with | none => _ | some _ => _)
    (before? ['"'] (trimEnd left) >>= fun _ => _)
  cases hl : before? ['"'] (trimEnd left) with
  | none => exact .failure
  | some l =>
    have hsub : l.Sublist s := by
      have h1 : l.Sublist (trimEnd left) := by
        rw [before?_eq_some_iff.1 hl]
        exact List.sublist_append_left l _
      exact (h1.trans (trimEnd_sublist left)).trans
        (hop.1 ▸ List.sublist_append_left left _)
    have hright : Small (trimStart right) :=
      hs.of_sublist ((List.dropWhile_sublist isBlank).trans hstop.sublist)
    refine (findLast_agrees '"' l).bind ?_
    rintro opening ⟨_, name⟩ hat
    have hend := hat.add_width
    have hle := width_le_of_sublist hsub
    refine .lift (add_of_lt (by omega)) (.lift (hat.cons_ascii (by decide)).sliceFrom ?_)
    refine (Cursor.reads_start hright).takeQuoted.bind_read fun value c r hc => ?_
    show Agrees Eq (if _ then _ else _) (if _ then _ else _)
    split
    · exact .failure
    · exact .pure rfl

theorem absentArg_agrees (hs : Small s) :
    Agrees Cursor.Reads (absentArg s) (HeaderMatcher.absentArgument? s) := by
  refine (afterWord_agrees (by decide) hs).bind_of ?_
  rintro tail _ htail rfl
  exact (Cursor.reads_start (hs.of_sublist (sublist_of_keyword? htail))).blanks

theorem absentContentType_agrees (hs : Small s) :
    Agrees Eq (absentContentType s) (HeaderMatcher.absentContentType? s) :=
  (absentArg_agrees hs).bind fun _ _ hc => (hc.eatWord _).bind fun _ _ _ => .pure rfl

theorem absentNamed_agrees (hs : Small s) :
    Agrees Eq (absentNamed s) (HeaderMatcher.absentNamed? s) :=
  (absentArg_agrees hs).bind fun _ _ hc => hc.takeNonempty.bind_read fun _ _ _ _ => .pure rfl

theorem findHelper_eq (hs : Small s) {helpers : List (Text × Text)}
    (hh : ∀ p ∈ helpers, IsWord p.1) : findHelper s helpers =
      .ok ((helpers.find? fun p => (keyword? p.1 s).isSome).map (·.2)) := by
  induction helpers with
  | nil => rfl
  | cons p helpers ih =>
    obtain ⟨helper, value⟩ := p
    rw [findHelper, findWord_zero (hh (helper, value) (by simp)) hs, ok_bind,
      ih fun q hq => hh q (by simp [hq]), List.find?_cons, keyword?, Option.isSome_map,
      Option.isSome_map]
    cases (keywordSearch helper none s).isSome <;> rfl

theorem isWord_of_mem_contentTypes : ∀ p ∈ HeaderMatcher.contentTypes, IsWord p.1 := by decide

theorem contentTypeHelper_agrees (hs : Small s) :
    Agrees Eq (contentTypeHelper s) (HeaderMatcher.contentType? s) := by
  have h := Agrees.eq_iff (x := OptionT.mk _) |>.2 (findHelper_eq hs isWord_of_mem_contentTypes)
  rw [HeaderMatcher.contentType?]
  cases hf : HeaderMatcher.contentTypes.find? fun p => (keyword? p.1 s).isSome with
  | none =>
    rw [hf] at h
    exact h.none_bind
  | some p =>
    rw [hf] at h
    exact h.some_bind (.pure rfl)

theorem resolveMatcher_agrees (hs : Small s) :
    Agrees Eq (resolveMatcher s) (HeaderMatcher.parse? s) := by
  have ht : Small (trim s) := hs.of_sublist (trim_sublist s)
  refine firstOf_agrees ?_
  refine .cons (exactInfix_agrees ht) (.cons (absentContentType_agrees ht) ?_)
  exact .cons (absentNamed_agrees ht) (.cons (contentTypeHelper_agrees ht) .nil)

theorem matcherElements_agrees (hs : Small s) : Agrees Eq (matcherElements s)
    ((topLevel ',' s).mapM HeaderMatcher.parse? >>= fun ms => some (HeaderMatchers.ofList ms)) := by
  refine .lift (splitTopLevel_eq hs (by decide)) ?_
  refine (collect_agrees fun e he => ?_).bind fun ms _ h => .pure (congrArg _ h)
  exact resolveMatcher_agrees (hs.of_sublist (sublist_of_mem_topLevel he))

theorem matchHeaders_agrees (hs : Small s) :
    Agrees Eq (matchHeaders s) (HeaderMatchers.parse? s) := by
  have ht : Small (trim s) := hs.of_sublist (trim_sublist s)
  rw [matchHeaders, HeaderMatchers.parse?]
  generalize trim s = t at ht
  cases t with
  | nil => exact matcherElements_agrees ht
  | cons c t =>
    by_cases hc : c = '['
    · subst hc
      show Agrees Eq (match before? [']'] t with | some _ => _ | none => _)
        (before? [']'] t >>= fun _ => _)
      cases hin : before? [']'] t with
      | none => exact .failure
      | some inner =>
        refine matcherElements_agrees (ht.of_sublist ?_)
        rw [before?_eq_some_iff.1 hin]
        exact (List.sublist_append_left _ _).trans (List.sublist_cons_self _ _)
    · have hafter : after? ['['] (c :: t) = none := by simp [after?, Ne.symm hc]
      rw [hafter]
      show Agrees Eq (matcherElements (c :: t)) _
      split
      · next h => exact absurd (List.cons.inj h).1 hc
      · exact matcherElements_agrees ht

end

end SpecHarvest.Bytes
