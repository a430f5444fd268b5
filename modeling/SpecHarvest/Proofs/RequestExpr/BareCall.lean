import SpecHarvest.Proofs.HeaderExpr.Bare
import SpecHarvest.Proofs.RequestExpr.General

/-!
# General requests with bare headers

Headers without brackets around them end where the body starts, and that is looked for kind by kind
in all of the arguments, the literals of the headers and of the body included.

* `ShowsBody h b`: the first kind of start that occurs is the one with which the body starts, and
  the headers have it not.
* `splitArguments?_of_shows`: then headers and body are divided where they meet.
* `headers_lost_or_body_unread`: else no headers are understood, or the body is not.
* `parse?_bareCall`: so what is sent. `bareCall_without_headers`: headers do get lost.
-/

namespace SpecHarvest.RequestExpr

open Text Source Http

/-- The body is the first thing that looks like one. -/
def ShowsBody (h b : Text) : Prop :=
  ∃ earlier start later, bodyStarts = earlier ++ start :: later ∧
    startsWith start b = true ∧ ¬start <:+: h ∧ ∀ e ∈ earlier, ¬e <:+: argumentsText h b

/-- A body after bare headers. -/
inductive BareBody : Text → Prop
  | mempty : BareBody "mempty".toList
  | literal {b : Text} : BodyLiteral b → BareBody b

variable {h b : Text}

/-! ## Dividing the arguments -/

/-- The first kind of start that occurs, where it occurs first. -/
structure SplitAt (a front start rest : Text) : Prop where
  mem : ∃ earlier later, bodyStarts = earlier ++ start :: later ∧ ∀ e ∈ earlier, ¬e <:+: a
  cut : cut? start a = some (front, rest)

theorem splitArguments?_bare {a : Text} {c : Char} {r : Text} (ha : trim a = a) (hcr : a = c :: r)
    (hb : c ≠ '[' ∧ c ≠ '(') : splitArguments? a = bodyStarts.findSome? fun start =>
      (cut? start a).map fun (front, rest) => (trim front, trim (start ++ rest)) := by
  rw [splitArguments?, ha]
  split
  · exact absurd (List.cons.inj hcr).1.symm hb.1
  · exact absurd (List.cons.inj hcr).1.symm hb.2
  · rfl

theorem splitArguments?_eq_some_iff {a : Text} {c : Char} {r : Text} (ha : trim a = a)
    (hcr : a = c :: r) (hb : c ≠ '[' ∧ c ≠ '(') {q : Text × Text} :
    splitArguments? a = some q ↔
      ∃ front start rest, SplitAt a front start rest ∧ q = (trim front, trim (start ++ rest)) := by
  have hnone {e : Text} : (cut? e a).map (fun p => (trim p.1, trim (e ++ p.2))) = none ↔
      ¬e <:+: a := by
    rw [Option.map_eq_none_iff, ← contains_iff, contains, Option.not_isSome_iff_eq_none]
  rw [splitArguments?_bare ha hcr hb, List.findSome?_eq_some_iff]
  constructor
  · rintro ⟨earlier, start, later, hstarts, hcut, hearlier⟩
    obtain ⟨⟨front, rest⟩, hc, rfl⟩ := Option.map_eq_some_iff.1 hcut
    exact ⟨front, start, rest, ⟨⟨earlier, later, hstarts, fun e he => hnone.1 (hearlier e he)⟩, hc⟩,
      rfl⟩
  · rintro ⟨front, start, rest, ⟨⟨earlier, later, hstarts, hearlier⟩, hc⟩, rfl⟩
    exact ⟨earlier, start, later, hstarts, by rw [hc]; rfl, fun e he => hnone.2 (hearlier e he)⟩

theorem space_not_mem_bodyStarts : ∀ start ∈ bodyStarts, ' ' ∉ start := by decide

theorem SplitAt.mem_bodyStarts {a front start rest : Text} (hs : SplitAt a front start rest) :
    start ∈ bodyStarts := by
  obtain ⟨earlier, later, heq, -⟩ := hs.mem
  rw [heq]
  simp

/-- A start occurs in the headers or in the body. -/
theorem SplitAt.cases {front start rest : Text} (hs : SplitAt (argumentsText h b) front start rest) :
    (∃ t, rest = t ++ ' ' :: b ∧ h = front ++ start ++ t) ∨
      ∃ f, front = h ++ ' ' :: f ∧ b = f ++ start ++ rest :=
  exists_of_append_eq_append_cons (space_not_mem_bodyStarts start hs.mem_bodyStarts)
    (eq_of_cut? hs.cut)

/-- **Where the body shows**, the arguments are divided there. -/
theorem splitAt_of_shows (hs : ShowsBody h b) :
    ∃ start rest, b = start ++ rest ∧ SplitAt (argumentsText h b) (h ++ [' ']) start rest := by
  obtain ⟨earlier, start, later, heq, hstart, hh, hearlier⟩ := hs
  obtain ⟨rest, rfl⟩ := startsWith_iff.1 hstart
  have hmem : start ∈ bodyStarts := by
    rw [heq]
    simp
  refine ⟨start, rest, rfl, ⟨⟨earlier, later, heq, hearlier⟩, cut?_eq_some_iff.2 ⟨?_, ?_⟩⟩⟩
  · simp [argumentsText]
  · intro f r hfr
    rcases exists_of_append_eq_append_cons (space_not_mem_bodyStarts start hmem) hfr with
      ⟨t, -, rfl⟩ | ⟨f', rfl, -⟩
    · exact absurd ⟨f, t, rfl⟩ hh
    · simp

/-- Where it does not show, they are divided within the headers or within the body. -/
theorem SplitAt.within {front start rest : Text} (hs : SplitAt (argumentsText h b) front start rest)
    (hn : ¬ShowsBody h b) : (∃ t, rest = t ++ ' ' :: b ∧ h = front ++ start ++ t) ∨
      ∃ f, f ≠ [] ∧ front = h ++ ' ' :: f ∧ b = f ++ start ++ rest := by
  rcases hs.cases with hin | ⟨f, rfl, hb⟩
  · exact .inl hin
  · refine .inr ⟨f, ?_, rfl, hb⟩
    rintro rfl
    obtain ⟨earlier, later, heq, hearlier⟩ := hs.mem
    refine hn ⟨earlier, start, later, heq, startsWith_iff.2 ⟨rest, hb⟩, ?_, hearlier⟩
    rintro ⟨x, y, rfl⟩
    have hle := length_le_of_cut? hs.cut (f := x) (r := y ++ ' ' :: b) (by simp [argumentsText])
    have hpos : 0 < start.length := by
      have hne : ∀ start ∈ bodyStarts, 0 < start.length := by decide
      exact hne start hs.mem_bodyStarts
    simp only [List.length_append, List.length_cons] at hle
    omega

theorem SplitAt.not_quasi {a front start rest : Text} (hs : SplitAt a front start rest)
    (hne : start ≠ quasiOpen) : ¬quasiOpen <:+: a := by
  obtain ⟨earlier, later, heq, hearlier⟩ := hs.mem
  cases earlier with
  | nil => exact absurd (List.cons.inj heq).1.symm hne
  | cons e es =>
    rw [(List.cons.inj heq).1]
    exact hearlier e List.mem_cons_self

/-! ## A place within the body -/

/-- Only a string literal has a start within it, and what precedes that is not closed. -/
theorem SplitAt.exists_of_body {front start rest f : Text}
    (hs : SplitAt (argumentsText h b) front start rest) (hb : BareBody b) (hf : f ≠ [])
    (hfront : front = h ++ ' ' :: f) (hbody : b = f ++ start ++ rest) :
    ∃ x, f = '"' :: x ∧ closeQuote? x = none := by
  have hmem := hs.mem_bodyStarts
  cases hb with
  | mempty =>
    have hall : ∀ start ∈ bodyStarts, contains start "mempty".toList = true → start.length = 6 := by
      decide
    have hin : contains start "mempty".toList = true := contains_iff.2 ⟨f, rest, hbody.symm⟩
    have hlen := congrArg List.length hbody
    have hpos := List.length_pos_iff.2 hf
    rw [List.length_append, List.length_append, hall start hmem hin] at hlen
    simp only [String.length_toList] at hlen
    have : "mempty".length = 6 := by decide
    omega
  | literal hb =>
    cases hb with
    | @string raw hraw =>
      obtain ⟨d, x, rfl⟩ := List.exists_cons_of_ne_nil hf
      rw [List.append_assoc, List.cons_append, List.cons.injEq] at hbody
      obtain ⟨rfl, hbody⟩ := hbody
      have hne : ∀ start ∈ bodyStarts, start ≠ [] := by decide
      have hrest : ¬start ++ rest <:+ [] := by
        rw [List.suffix_nil, List.append_eq_nil_iff, not_and]
        exact fun hnil => absurd hnil (hne start hmem)
      exact ⟨x, rfl, hraw.closeQuote?_eq_none hbody hrest⟩
    | @quasi content _ =>
      have hq : argumentsText h (quasiOpen ++ content ++ quasiClose) =
          (h ++ [' ']) ++ quasiOpen ++ (content ++ quasiClose) := by simp [argumentsText]
      by_cases hstart : start = quasiOpen
      · have hle := length_le_of_cut? (hstart ▸ hs.cut) hq
        have hpos := List.length_pos_iff.2 hf
        rw [hfront] at hle
        simp only [List.length_append, List.length_cons, List.length_nil] at hle
        omega
      · exact absurd ⟨_, _, hq.symm⟩ (hs.not_quasi hstart)

/-! ## A place within the headers -/

theorem bodyResolve?_eq_none {s : Text} (hs : trim s = s) (hspace : ' ' ∈ s)
    (hquasi : ¬quasiOpen <:+: s) (hlit : Body.wholeLiteral? s = none) : Body.resolve? s = none := by
  have hnone : Body.isNone s = false := by
    have hne {t : Text} (ht : ' ' ∉ t) : (s == t) = false := by
      rw [beq_eq_false_iff_ne]
      rintro rfl
      exact ht hspace
    have hempty : s.isEmpty = false := by simpa using List.ne_nil_of_mem hspace
    rw [Body.isNone, hempty, hne (by decide), hne (by decide)]
    rfl
  have hcontent : quasiContent? s = none := by
    rw [← contains_iff, contains, Option.not_isSome_iff_eq_none] at hquasi
    rw [quasiContent?, hquasi]
    rfl
  rw [Body.resolve?, hs]
  simp only [hnone, hcontent, hlit]
  rfl

theorem wholeLiteral?_eq_none {s raw rest : Text} (h : quoted? s = some (raw, rest))
    (hne : rest ≠ []) : Body.wholeLiteral? s = none := by
  obtain ⟨c, r, rfl⟩ := List.exists_cons_of_ne_nil hne
  rw [Body.wholeLiteral?, h]

theorem trim_of_append {x y : Text} {c : Char} (hc : isBlank c = false)
    (h : trim (x ++ c :: y) = x ++ c :: y) : trim (c :: y) = c :: y := by
  have hend : trimEnd (x ++ c :: y) = x ++ c :: y := by
    rw [← h, trim, trimEnd_trimEnd]
  have hne : trimEnd (c :: y) ≠ [] := by
    rw [ne_eq, trimEnd_eq_nil_iff]
    simp [allBlank, hc]
  rw [trimEnd_append, if_neg hne] at hend
  rw [trim, trimStart_cons_of_not_blank hc, List.append_cancel_left hend]

/-- A body that starts within the headers is not understood, but for a quasi-literal. -/
theorem SplitAt.unread_of_headers {front start rest t : Text}
    (hs : SplitAt (argumentsText h b) front start rest) (hbare : HeaderExpr.Bare h)
    (htrim : trim (argumentsText h b) = argumentsText h b) (hne : start ≠ quasiOpen)
    (hrest : rest = t ++ ' ' :: b) (hh : h = front ++ start ++ t) :
    Body.resolve? (trim (start ++ rest)) = none := by
  have hmem := hs.mem_bodyStarts
  have heq := eq_of_cut? hs.cut
  rw [List.append_assoc] at heq
  have htrim' : trim (start ++ rest) = start ++ rest := by
    have hall : ∀ start ∈ bodyStarts, ∃ c r, start = c :: r ∧ isBlank c = false := by
      simp only [bodyStarts, List.forall_mem_cons, List.not_mem_nil, false_imp_iff, implies_true,
        and_true]
      exact ⟨⟨'[', _, rfl, by decide⟩, ⟨'"', _, rfl, by decide⟩, ⟨'m', _, rfl, by decide⟩,
        ⟨'"', _, rfl, by decide⟩⟩
    obtain ⟨c, r, rfl, hc⟩ := hall start hmem
    rw [heq] at htrim
    exact trim_of_append hc htrim
  have hquasi : ¬quasiOpen <:+: start ++ rest := fun hin =>
    hs.not_quasi hne (hin.trans ⟨front, [], by rw [heq, List.append_nil]⟩)
  rw [htrim']
  refine bodyResolve?_eq_none htrim' (by simp [hrest]) hquasi ?_
  simp only [bodyStarts, List.mem_cons, List.not_mem_nil, or_false] at hmem
  rcases hmem with rfl | rfl | rfl | rfl
  · exact absurd rfl hne
  · -- the literal is empty, and something follows
    rw [hrest, show "\"\"".toList ++ (t ++ ' ' :: b) = '"' :: ([] ++ '"' :: (t ++ ' ' :: b)) from rfl]
    have hq : quoted? ('"' :: ([] ++ '"' :: (t ++ ' ' :: b))) = some ([], t ++ ' ' :: b) :=
      Raw.nil.closeQuote? _
    exact wholeLiteral?_eq_none hq (by simp)
  · rfl
  · -- the literal of the headers, and the body follows
    have hfirst := (cut?_singleton_eq_some_iff.1 hs.cut).2
    rw [hh, List.append_assoc, List.singleton_append] at hbare
    obtain ⟨raw, g, hraw, -, rfl⟩ := hbare.exists_of_quote hfirst
    have hq : quoted? (['"'] ++ rest) = some (raw, g ++ ' ' :: b) := by
      rw [hrest, List.append_assoc, List.cons_append]
      exact hraw.closeQuote? _
    exact wholeLiteral?_eq_none hq (by simp)

theorem resolveList?_trim (bindings : Bindings) (s : Text) :
    HeaderExpr.resolveList? bindings (trim s) = HeaderExpr.resolveList? bindings s := by
  rw [HeaderExpr.resolveList?, HeaderExpr.resolveList?, trim_trim]

theorem resolveList?_nil (bindings : Bindings) : HeaderExpr.resolveList? bindings [] = none := by
  have hp : HeaderExpr.parse? [] = none := rfl
  rw [HeaderExpr.resolveList?, show trim [] = [] from rfl]
  simp only
  rw [HeaderExpr.resolve?, hp]

theorem resolveList?_of_not_bare (bindings : Bindings) {c : Char} {s : Text}
    (hc : isBlank c = false) (hb : c ≠ '[' ∧ c ≠ '(') (hn : ¬HeaderExpr.Bare (c :: s)) :
    HeaderExpr.resolveList? bindings (trim (c :: s)) = none := by
  rw [resolveList?_trim, Option.eq_none_iff_forall_ne_some]
  exact fun hs h => hn (HeaderExpr.bare_of_resolveList? hc hb h)

/-- **Where the body does not show**, the headers are cut within a literal, or what is taken for the
body is not understood. -/
theorem headers_lost_or_body_unread (bindings : Bindings) {c : Char} {r front start rest : Text}
    (hcr : h = c :: r) (hc : isBlank c = false) (hbr : c ≠ '[' ∧ c ≠ '(')
    (hbare : HeaderExpr.Bare h) (hb : BareBody b)
    (htrim : trim (argumentsText h b) = argumentsText h b) (hn : ¬ShowsBody h b)
    (hs : SplitAt (argumentsText h b) front start rest) :
    HeaderExpr.resolveList? bindings (trim front) = none ∨
      Body.resolve? (trim (start ++ rest)) = none := by
  rcases hs.within hn with ⟨t, hrest, hh⟩ | ⟨f, hf, hfront, hbody⟩
  · by_cases hstart : start = quasiOpen
    · left
      rw [hh, hstart, List.append_assoc] at hbare
      obtain ⟨w, x, hwx, hw, hx⟩ := hbare.exists_of_bracket
      obtain ⟨s, rfl⟩ : ∃ s, front = c :: s := by
        cases front with
        | nil =>
          rw [hcr, hstart] at hh
          exact absurd (List.cons.inj hh).1 hbr.1
        | cons d s =>
          rw [hcr] at hh
          exact ⟨s, by rw [(List.cons.inj hh).1]⟩
      refine resolveList?_of_not_bare bindings hc hbr ?_
      rw [hwx]
      exact HeaderExpr.not_bare_of_unclosed hw hx
    · exact .inr (hs.unread_of_headers hbare htrim hstart hrest hh)
  · left
    obtain ⟨x, rfl, hx⟩ := hs.exists_of_body hb hf hfront hbody
    have hn' := hbare.not_append_unclosed hx
    rw [hfront]
    rw [hcr] at hn' ⊢
    exact resolveList?_of_not_bare bindings hc hbr hn'

/-! ## What is sent -/

theorem BareBody.allBlank (hb : BareBody b) : Text.allBlank b = false := by
  cases hb with
  | mempty => decide
  | literal hb => cases hb <;> rfl

theorem resolve?_general {bindings : Bindings} {m p path a : Text} {method : Method}
    (hm : (m, method) ∈ Method.aliases) (hp : Denotes p path) {headers body : Text}
    (ha : splitArguments? a = some (headers, body)) :
    RequestExpr.resolve? bindings (.general m p a) = (Body.resolve? body).map fun sent =>
      ⟨method, path, (HeaderExpr.resolveList? bindings headers).getD [], sent⟩ := by
  rw [RequestExpr.resolve?, Method.ofName?_of_mem_aliases hm, ha]
  simp only [Option.bind_eq_bind, Option.bind_some, hp.eq]
  cases Body.resolve? body <;> rfl

/-- **What a general request with bare headers sends.** Where the body shows it is the request that
is written. Else there is no request, or one without headers. -/
theorem parse?_bareCall {m p path h b : Text} {method : Method} {hs : List Header}
    {body : Option Text} (bindings : Bindings) (hm : (m, method) ∈ Method.aliases)
    (hp : Denotes p path) (hbr : h.head? ≠ some '[' ∧ h.head? ≠ some '(')
    (hh : HeaderExpr.resolveList? bindings h = some hs) (hb : BareBody b)
    (hbody : Body.resolve? b = some body)
    (hc : collapse (generalText m p (argumentsText h b)) = generalText m p (argumentsText h b))
    (hget : get? (generalText m p (argumentsText h b)) = none)
    (hpost : post? (generalText m p (argumentsText h b)) = none) :
    (ShowsBody h b → Request.parse? bindings (generalText m p (argumentsText h b)) =
      some ⟨method, path, hs, body⟩) ∧
    (¬ShowsBody h b → Request.parse? bindings (generalText m p (argumentsText h b)) = none ∨
      ∃ sent, Request.parse? bindings (generalText m p (argumentsText h b)) =
        some ⟨method, path, [], sent⟩) := by
  have ha : allBlank (argumentsText h b) = false := by
    have hall := hb.allBlank
    simp only [allBlank] at hall
    simp [argumentsText, allBlank, hall]
  have hcollapse : collapse (argumentsText h b) = argumentsText h b := by
    have hsplit (keyword : Text) : keyword ++ (m ++ ' ' :: '"' :: (p ++ '"' :: ' ' ::
        argumentsText h b)) = (keyword ++ (m ++ ' ' :: '"' :: (p ++ ['"']))) ++ ' ' ::
          argumentsText h b := by simp
    rw [show generalText m p (argumentsText h b) = _ from hsplit "request ".toList] at hc
    refine collapse_of_append_blank (by decide) ?_ hc
    rw [ne_eq, trimStart_eq_nil_iff, ha]
    decide
  have htrim := trim_of_collapse hcollapse
  obtain ⟨c, r, rfl⟩ : ∃ c r, h = c :: r := by
    cases h with
    | nil =>
      rw [resolveList?_nil] at hh
      cases hh
    | cons c r => exact ⟨c, r, rfl⟩
  have hblank : isBlank c = false := by
    refine isBlank_of_trimStart_eq_cons (s := argumentsText (c :: r) b) (r := r ++ ' ' :: b) ?_
    rw [← htrim, trimStart_trim, htrim]
    rfl
  have hbr : c ≠ '[' ∧ c ≠ '(' :=
    ⟨fun hc => hbr.1 (congrArg some hc), fun hc => hbr.2 (congrArg some hc)⟩
  have hparse : Request.parse? bindings (generalText m p (argumentsText (c :: r) b)) =
      RequestExpr.resolve? bindings (.general m p (argumentsText (c :: r) b)) := by
    rw [Request.parse?, hc, find?_generalText hm hp.isRaw ha hget hpost, htrim, Option.bind_some]
  rw [hparse]
  constructor
  · intro hshows
    obtain ⟨start, rest, rfl, hsplit⟩ := splitAt_of_shows hshows
    rw [resolve?_general hm hp ((splitArguments?_eq_some_iff htrim rfl hbr).2
      ⟨_, _, _, hsplit, rfl⟩), bodyResolve?_trim, hbody,
      trim_append_singleton_of_isBlank (by decide), resolveList?_trim, hh]
    rfl
  · intro hn
    cases hsplit : splitArguments? (argumentsText (c :: r) b) with
    | none =>
      left
      rw [RequestExpr.resolve?, Method.ofName?_of_mem_aliases hm, hsplit]
      rfl
    | some q =>
      obtain ⟨front, start, rest, hat, rfl⟩ := (splitArguments?_eq_some_iff htrim rfl hbr).1 hsplit
      rw [resolve?_general hm hp hsplit]
      rcases headers_lost_or_body_unread bindings rfl hblank hbr
        (HeaderExpr.bare_of_resolveList? hblank hbr hh) hb htrim hn hat with hlost | hunread
      · rw [hlost]
        cases Body.resolve? (trim (start ++ rest)) with
        | none => exact .inl rfl
        | some sent => exact .inr ⟨sent, rfl⟩
      · rw [hunread]
        exact .inl rfl

/-- A token in a literal, and a quasi-literal as the body. -/
theorem parse?_bareCall_token : ShowsBody "authHeaderJWT \"t\"".toList "[json|[1]|]".toList ∧
    Request.parse? [] (generalText "methodPost".toList "/p".toList
        (argumentsText "authHeaderJWT \"t\"".toList "[json|[1]|]".toList)) =
      some ⟨.post, "/p".toList, [Header.of "Authorization" "Bearer t"], some "[1]".toList⟩ := by
  have hshows : ShowsBody "authHeaderJWT \"t\"".toList "[json|[1]|]".toList := by
    refine ⟨[], quasiOpen, ["\"\"".toList, "mempty".toList, ['"']], rfl, by decide, ?_, by simp⟩
    rw [← contains_iff]
    decide
  have hcontent : contains quasiClose "[1]".toList = false := by decide
  have hquasi : BodyLiteral "[json|[1]|]".toList := .quasi hcontent
  have hp : Denotes "/p".toList "/p".toList := ⟨by decide, by decide⟩
  exact ⟨hshows, (parse?_bareCall [] (by decide +kernel) hp (by decide) (by decide +kernel)
    (.literal hquasi) (by decide +kernel) (by decide +kernel) (by decide +kernel)
    (by decide +kernel)).1 hshows⟩

/-- A body that ends with an escaped quote. -/
def quotedBody : Text := "\"\\\"x\\\"\"".toList

/-- **Bare headers get lost**: the two quotes at the end of a body are taken for the empty one. -/
theorem bareCall_without_headers : ¬∀ (m p path h b : Text) (method : Method) (hs : List Header)
    (body : Option Text), (m, method) ∈ Method.aliases → Denotes p path →
      h.head? ≠ some '[' ∧ h.head? ≠ some '(' → HeaderExpr.resolveList? [] h = some hs →
      BareBody b →
      Body.resolve? b = some body →
      collapse (generalText m p (argumentsText h b)) = generalText m p (argumentsText h b) →
      get? (generalText m p (argumentsText h b)) = none →
      post? (generalText m p (argumentsText h b)) = none →
      Request.parse? [] (generalText m p (argumentsText h b)) = none ∨
        Request.parse? [] (generalText m p (argumentsText h b)) = some ⟨method, path, hs, body⟩ := by
  intro hall
  have hp : Denotes "/p".toList "/p".toList := ⟨by decide, by decide⟩
  have hraw : Raw "\\\"x\\\"".toList := by decide
  have hstring : BodyLiteral quotedBody := .string hraw
  have hheaders : HeaderExpr.resolveList? [] "planHdr".toList =
      some [Header.of "Accept" "application/vnd.pgrst.plan+json"] := by decide +kernel
  have hbody : Body.resolve? quotedBody = some (some "\"x\"".toList) := by decide +kernel
  have hparse : Request.parse? [] (generalText "methodPut".toList "/p".toList
      (argumentsText "planHdr".toList quotedBody)) = some ⟨.put, "/p".toList, [], none⟩ := by
    decide +kernel
  rcases hall "methodPut".toList _ _ _ _ .put _ _ (by decide +kernel) hp (by decide) hheaders
    (.literal hstring) hbody (by decide +kernel) (by decide +kernel) (by decide +kernel) with h | h
  · rw [hparse] at h
    cases h
  · rw [hparse] at h
    cases h

end SpecHarvest.RequestExpr
