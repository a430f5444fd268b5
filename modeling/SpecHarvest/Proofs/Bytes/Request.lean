import SpecHarvest.Proofs.Bytes.Header
import SpecHarvest.Proofs.Bytes.Json
import SpecHarvest.Proofs.Bytes.Keyword
import SpecHarvest.Proofs.RequestExpr.Search
import SpecHarvest.RequestExpr

/-!
# Request expressions over bytes

The forms of requests are read with a cursor after each place of their keyword; headers and body are
cut apart at the byte offsets of brackets and body markers. `parseRequest_agrees`: from a small text
the request is the one that `Request.parse?` reads.
-/

namespace SpecHarvest.Bytes

open Text Source Http

/-! ## Bodies -/

/-- What the first quasi-literal of a text holds, white space around it aside. -/
def quasiContent (s : Text) : Found Text := do
  let opening ← find quasiOpen s
  let start ← add opening (width quasiOpen)
  let tail ← sliceFrom s start
  let closing ← find quasiClose tail
  let stop ← add start closing
  let content ← slice s start stop
  return trim content

/-- The value of the first quasi-literal of a text, if there is one; it must be readable. -/
def quasiValue (s : Text) : Found (Option Json.Value) := do
  match ← attempt (quasiContent s) with
  | some content =>
    match ← (parseRelaxed content : Found _) with
    | .ok v => return some v
    | .error _ => failure
  | none => return none

/-- What a string literal that ends with the text holds, as written. -/
def wholeLiteral (s : Text) : Found Text := do
  let closing ← attempt (OptionT.mk (closingQuote s 0))
  let last ← sub (width s) 1
  if closing = some last then slice s 1 last else failure

/-- The body that an expression denotes, which may be no body. -/
def extractBody (expr : Text) : Found (Option Text) := do
  let s := trim expr
  if Body.isNone s then return none
  else
    match ← quasiValue s with
    | some v => return some v.compact
    | none => do
      let text := unescape (← wholeLiteral s)
      return if text.isEmpty then none else some (Body.ofText text)

section

variable {s : Text}

theorem quasiContent_agrees (hs : Small s) :
    Agrees SameText (quasiContent s) (quasiContent? s) := by
  have hsmall : width s < 2 ^ 31 := hs
  refine (find_agrees quasiOpen s).bind ?_
  rintro opening ⟨_, tail⟩ hopen
  have htail := hopen.at.append
  have hlen := htail.add_width
  refine .lift (add_of_lt (by omega)) (.lift htail.sliceFrom ?_)
  refine (find_agrees quasiClose tail).bind ?_
  rintro closing ⟨content, rest⟩ ⟨htext, rfl⟩
  rw [htext] at htail
  have hstop := htail.append.add_width
  refine .lift (add_of_lt (by omega)) (.lift (htail.slice rfl) (.pure ⟨rfl, hs.of_sublist ?_⟩))
  exact ((trim_sublist content).trans (List.sublist_append_left _ _)).trans htail.sublist

theorem quasiValue_bind {α β : Type} {S : α → β → Prop} {f : Option Json.Value → Found α}
    {g : Json.Value → Option β} {o : Option β} (hs : Small s)
    (hf : ∀ v, Agrees S (f (some v)) (g v)) (ho : Agrees S (f none) o) :
    Agrees S (quasiValue s >>= f) (match quasiContent? s with
      | some content => match Json.parseRelaxed content with
        | .ok v => g v
        | .error _ => none
      | none => o) := by
  have hquasi := quasiContent_agrees hs
  rw [quasiValue, bind_assoc]
  generalize quasiContent? s = content' at hquasi ⊢
  refine hquasi.attempt fun content hc => ?_
  cases hc with
  | none => exact ho
  | @some content _ h =>
    obtain ⟨rfl, hsmall⟩ := h
    have hvalue := parseRelaxed_eq hsmall
    show Agrees S ((liftM (parseRelaxed content) >>= fun _ => _) >>= f)
      (match Json.parseRelaxed content with | .ok _ => _ | .error _ => _)
    generalize Json.parseRelaxed content = value at hvalue ⊢
    rw [bind_assoc]
    refine .lift hvalue ?_
    cases value with
    | ok v => exact hf v
    | error e => exact .failure

theorem wholeLiteral_agrees (hs : Small s) (hne : s ≠ []) :
    Agrees Eq (wholeLiteral s) (Body.wholeLiteral? s) := by
  obtain ⟨c, t, rfl⟩ := List.exists_cons_of_ne_nil hne
  have hpos := width_pos c t
  rw [Body.wholeLiteral?]
  refine (Agrees.eq_iff.2 (closingQuote_at hs (at_zero _))).attempt_eq ?_
  refine .lift (sub_of_le hpos) ?_
  cases hq : quoted? (c :: t) with
  | none => exact .failure
  | some p =>
    obtain ⟨raw, r⟩ := p
    have hsplit := (quoted?_eq_some_iff.1 hq).2
    have hw : width (c :: t) = 0 + 1 + width raw + 1 + width r := by
      rw [hsplit, width_cons, width_append, width_cons, show '"'.utf8Size = 1 from rfl]
      omega
    show Agrees Eq (if some (0 + 1 + width raw) = some _ then _ else _) _
    cases r with
    | nil =>
      have hat : At (c :: t) 1 (raw ++ ['"']) := ⟨['"'], hsplit, rfl⟩
      rw [width_nil] at hw
      rw [if_pos (congrArg some (by omega))]
      exact .lifted (hat.slice (by omega)) rfl
    | cons d r =>
      have hd := width_pos d r
      rw [if_neg (fun h => absurd (Option.some.inj h) (by omega))]
      exact .failure

theorem extractBody_agrees (hs : Small s) : Agrees Eq (extractBody s) (Body.resolve? s) := by
  have ht : Small (trim s) := hs.of_sublist (trim_sublist s)
  rw [extractBody, Body.resolve?]
  generalize trim s = t at ht
  cases hnone : Body.isNone t with
  | true => exact .pure rfl
  | false =>
    simp only [Bool.false_eq_true, if_false]
    refine quasiValue_bind (g := fun v => some (some v.compact)) ht (fun v => .pure rfl) ?_
    have hne : t ≠ [] := by
      rintro rfl
      cases hnone
    have hliteral := wholeLiteral_agrees ht hne
    generalize Body.wholeLiteral? t = raw at hliteral ⊢
    cases raw with
    | none => exact hliteral.none_bind
    | some raw => exact hliteral.some_bind (.pure rfl)

end

/-! ## The forms of requests -/

/-- An expression after white space, up to the end of the text. -/
def trailingExpr (c : Cursor) : Found Text := do
  let c ← c.blanks
  if ← c.atEnd then failure
  else
    let rest ← c.rest
    return trimEnd rest

/-- A `get`, read after its keyword. -/
def readGet (c : Cursor) : Found RequestExpr := do
  let (path, _) ← c.takeQuoted
  return .get path

/-- A `post`, read after its keyword. -/
def readPost (c : Cursor) : Found RequestExpr := do
  let (path, c) ← c.takeQuoted
  let body ← trailingExpr c
  return .post path body

/-- A `request`, read after its keyword. -/
def readGeneral (c : Cursor) : Found RequestExpr := do
  let (method, c) ← c.takeIdentifier
  let c ← c.blanks
  let (path, c) ← c.takeQuoted
  let rest ← trailingExpr c
  return .general method path rest

/-- The readers of the forms, in the order in which they are tried. -/
def requestShapes : List (Text → Found RequestExpr) :=
  [fun s => OptionT.mk (tryAfter s "get".toList readGet 0),
    fun s => OptionT.mk (tryAfter s "post".toList readPost 0),
    fun s => OptionT.mk (tryAfter s "request".toList readGeneral 0)]

/-- The request expression of a text. -/
def requestShape (s : Text) : Found RequestExpr := firstOf requestShapes s

/-- What is scanned of an expression later. -/
def lastPart : RequestExpr → Text
  | .get _ => []
  | .post _ body => body
  | .general _ _ arguments => arguments

/-- The same expression, whose last part is small. -/
def SameExpr (e e' : RequestExpr) : Prop := e = e' ∧ Small (lastPart e)

section

variable {c : Cursor} {r s : Text}

theorem trailingExpr_agrees (h : c.Reads r) :
    Agrees SameText (trailingExpr c) (RequestExpr.lastExpr? r) := by
  refine h.blanks.bind fun c r hc => .lift hc.atEnd ?_
  cases allBlank r with
  | true => exact .failure
  | false => exact .lift hc.rest (.pure ⟨rfl, hc.small.of_sublist (trimEnd_sublist r)⟩)

theorem readGet_agrees (h : c.Reads r) : Agrees SameExpr (readGet c)
    (quoted? r >>= fun p => some (.get p.1)) :=
  h.takeQuoted.bind_read fun _ _ _ _ => .pure ⟨rfl, small_nil⟩

theorem readPost_agrees (h : c.Reads r) : Agrees SameExpr (readPost c)
    (quoted? r >>= fun p => RequestExpr.lastExpr? p.2 >>= fun body => some (.post p.1 body)) := by
  refine h.takeQuoted.bind_read fun path c r hc => (trailingExpr_agrees hc).bind ?_
  rintro body _ ⟨rfl, hb⟩
  exact .pure ⟨rfl, hb⟩

theorem readGeneral_agrees (h : c.Reads r) : Agrees SameExpr (readGeneral c)
    (identifier? r >>= fun p => blanks? p.2 >>= fun s => quoted? s >>= fun q =>
      RequestExpr.lastExpr? q.2 >>= fun arguments => some (.general p.1 q.1 arguments)) := by
  refine h.takeIdentifier.bind_read fun method c r hc => hc.blanks.bind fun c r hc => ?_
  refine hc.takeQuoted.bind_read fun path c r hc => (trailingExpr_agrees hc).bind ?_
  rintro arguments _ ⟨rfl, ha⟩
  exact .pure ⟨rfl, ha⟩

theorem requestShape_agrees (hs : Small s) :
    Agrees SameExpr (requestShape s) (RequestExpr.find? s) := by
  refine firstOf_agrees (.cons ?_ (.cons ?_ (.cons ?_ .nil)))
  · rw [RequestExpr.get?, RequestExpr.findSome?_argumentsOf]
    exact tryAfter_zero (fun c r hc => readGet_agrees hc) (by decide) hs
  · rw [RequestExpr.post?, RequestExpr.findSome?_argumentsOf]
    exact tryAfter_zero (fun c r hc => readPost_agrees hc) (by decide) hs
  · rw [RequestExpr.general?, RequestExpr.findSome?_argumentsOf]
    exact tryAfter_zero (fun c r hc => readGeneral_agrees hc) (by decide) hs

end

/-! ## Headers and body of a general request -/

/-- The bracket that closes the one at an offset. -/
def closingBracket (s : Text) (i : Nat) (opened closed : Char) : Found Nat :=
  OptionT.mk (findMatching s i opened.toUInt8 closed.toUInt8)

/-- A bare header expression, and the body expression from where a body starts. -/
def splitBare (s : Text) : Found (Text × Text) := do
  let i ← firstOf (RequestExpr.bodyStarts.map find) s
  let headers ← slice s 0 i
  let body ← sliceFrom s i
  return (trim headers, trim body)

/-- The header expression and the body expression of a general request. -/
def splitArguments (expr : Text) : Found (Text × Text) := do
  let s := trim expr
  if startsWith ['['] s then do
    let close ← closingBracket s 0 '[' ']'
    let stop ← add close 1
    let headers ← slice s 0 stop
    let body ← sliceFrom s stop
    return (headers, trim body)
  else if startsWith ['('] s then do
    let close ← closingBracket s 0 '(' ')'
    let headers ← slice s 1 close
    let stop ← add close 1
    let body ← sliceFrom s stop
    return (headers, trim body)
  else splitBare s

/-- The request that a text states. -/
def parseRequest (bindings : Bindings) (s : Text) : Found Request := do
  match ← requestShape (collapse s) with
  | .get path => return ⟨.get, unescape path, [], none⟩
  | .post path body => return ⟨.post, unescape path, [], ← extractBody body⟩
  | .general method path arguments => do
    let method ← (OptionT.mk (.ok (Method.ofName? (Method.nameOf method))) : Found Method)
    let (headers, body) ← splitArguments arguments
    let resolved ← attempt (resolveHeaderList bindings headers)
    return ⟨method, unescape path, resolved.getD [], ← extractBody body⟩

section

variable {s : Text} {bindings : Bindings}

theorem closingBracket_agrees (hs : Small s) {i : Nat} {opened closed : Char} {rest : Text}
    (h : At s i (opened :: rest)) (ho : opened.toNat < 0x80) (hc : closed.toNat < 0x80)
    (hq : opened ≠ '"') :
    Agrees (fun j p => At s i (opened :: p.1 ++ closed :: p.2) ∧ j = i + 1 + width p.1)
      (closingBracket s i opened closed) (matching? opened closed 1 false rest) := by
  refine ⟨_, findMatching_at hs h ho hc hq, ?_⟩
  cases hm : matching? opened closed 1 false rest with
  | none => exact .none
  | some p =>
    rw [eq_of_matching? hm] at h
    exact .some ⟨h, rfl⟩

theorem width_list (inner : Text) : width ('[' :: inner ++ [']']) = 0 + 1 + width inner + 1 := by
  rw [width_append, width_cons]
  have hopen : '['.utf8Size = 1 := rfl
  have hclose : width [']'] = 1 := rfl
  omega

/-- The two texts that a general request is cut into, both small. -/
def SameParts (p q : Text × Text) : Prop := p = q ∧ Small p.1 ∧ Small p.2

theorem SameParts.of_append {f b : Text} (hs : Small s) (hfb : s = f ++ b) :
    SameParts (trim f, trim b) (trim f, trim b) := by
  subst hfb
  refine ⟨rfl, hs.of_sublist ?_, hs.of_sublist ?_⟩
  · exact (trim_sublist f).trans (List.sublist_append_left f b)
  · exact (trim_sublist b).trans (List.sublist_append_right f b)

theorem findStart_agrees (starts : List Text) (s : Text) :
    Agrees (fun i q => ∃ f b, s = f ++ b ∧ i = width f ∧ q = (trim f, trim b))
      (firstOf (starts.map find) s) (starts.findSome? fun start =>
        (cut? start s).map fun p => (trim p.1, trim (start ++ p.2))) := by
  refine firstOf_map_agrees
    (g := fun start s => (cut? start s).map fun p => (trim p.1, trim (start ++ p.2))) starts ?_
  refine fun start _ => (find_agrees start s).map_right ?_
  rintro i ⟨f, b⟩ ⟨hs, hi⟩
  exact ⟨f, start ++ b, hs, hi, rfl⟩

theorem splitBare_agrees (hs : Small s) : Agrees SameParts (splitBare s)
    (RequestExpr.bodyStarts.findSome? fun start =>
      (cut? start s).map fun p => (trim p.1, trim (start ++ p.2))) := by
  refine (findStart_agrees RequestExpr.bodyStarts s).bind_some ?_
  rintro _ _ ⟨f, b, hfb, rfl, rfl⟩
  have hat : At s 0 (f ++ b) := hfb ▸ at_zero s
  refine .lift (hat.slice (Nat.zero_add _).symm) (.lift (a := b) ?_ (.pure (.of_append hs hfb)))
  exact At.sliceFrom ⟨f, hfb, rfl⟩

theorem splitArguments_agrees (hs : Small s) :
    Agrees SameParts (splitArguments s) (RequestExpr.splitArguments? s) := by
  have ht : Small (trim s) := hs.of_sublist (trim_sublist s)
  rw [splitArguments, RequestExpr.splitArguments?]
  generalize trim s = t at ht
  have htw : width t < 2 ^ 31 := ht
  cases t with
  | nil => exact splitBare_agrees ht
  | cons c t =>
    by_cases hb : c = '['
    · subst hb
      refine (closingBracket_agrees ht (at_zero _) (by decide) (by decide) (by decide)).bind_map ?_
      rintro close ⟨inner, rest⟩ ⟨hat, hclose⟩
      obtain rfl : close = 0 + 1 + width inner := hclose
      have hlist : At ('[' :: t) 0 (('[' :: inner ++ [']']) ++ rest) := by simpa using hat
      have hend := hlist.append
      have hlen := hend.add_width
      have hw := width_list inner
      rw [hw] at hend hlen
      refine .lift (add_of_lt (by omega)) (.lift (hlist.slice (by omega)) ?_)
      refine .lift (a := rest) (by simpa using hend.sliceFrom) (.pure ⟨rfl, ?_, ?_⟩)
      · exact ht.of_sublist ((List.sublist_append_left _ _).trans hlist.sublist)
      · exact ht.of_sublist ((trim_sublist rest).trans hend.sublist)
    by_cases hp : c = '('
    · subst hp
      refine (closingBracket_agrees ht (at_zero _) (by decide) (by decide) (by decide)).bind_map ?_
      rintro close ⟨inner, rest⟩ ⟨hat, hclose⟩
      obtain rfl : close = 0 + 1 + width inner := hclose
      have hinner : At ('(' :: t) (0 + 1) (inner ++ ')' :: rest) := hat.cons_ascii (by decide)
      have hend : At ('(' :: t) (0 + 1 + width inner + 1) rest :=
        hinner.append.cons_ascii (by decide)
      have hlen := hend.add_width
      refine .lift (hinner.slice rfl) (.lift (add_of_lt (by omega)) ?_)
      refine .lift (a := rest) hend.sliceFrom (.pure ⟨rfl, ?_, ?_⟩)
      · exact ht.of_sublist ((List.sublist_append_left _ _).trans hinner.sublist)
      · exact ht.of_sublist ((trim_sublist rest).trans hend.sublist)
    have hsb : startsWith ['['] (c :: t) = false := by simp [startsWith, after?, Ne.symm hb]
    have hsp : startsWith ['('] (c :: t) = false := by simp [startsWith, after?, Ne.symm hp]
    rw [hsb, hsp]
    show Agrees SameParts (splitBare (c :: t)) _
    split
    · next h => exact absurd (List.cons.inj h).1 hb
    · next h => exact absurd (List.cons.inj h).1 hp
    · exact splitBare_agrees ht

theorem width_squeeze_le (j : Bool) (s : Text) : width (squeeze j s) ≤ width s + (!j).toNat := by
  fun_induction squeeze j s with
  | case1 => exact Nat.zero_le _
  | case2 j c s _ ih =>
    have := c.utf8Size_pos
    simp only [width_cons, Bool.not_false, Bool.toNat_true] at ih ⊢
    omega
  | case3 c s _ ih =>
    simp only [width_cons, Bool.not_true, Bool.toNat_false] at ih ⊢
    omega
  | case4 j c s _ _ ih =>
    simp only [width_cons, Bool.not_true, Bool.toNat_false, show ' '.utf8Size = 1 from rfl] at ih ⊢
    simp_all
    omega

theorem Small.collapse (hs : Small s) : Small (collapse s) := by
  have hle := width_squeeze_le true (trimStart s)
  have ht := width_le_of_sublist (List.dropWhile_sublist isBlank (l := s))
  rw [Small, collapse_eq_squeeze_trimStart]
  have : width s < 2 ^ 31 := hs
  exact Nat.lt_of_le_of_lt (hle.trans ht) hs

/-- **The request of a text is read without a fault.** -/
theorem parseRequest_agrees (hs : Small s) (hb : SmallBindings bindings) :
    Agrees Eq (parseRequest bindings s) (Request.parse? bindings s) := by
  refine (requestShape_agrees hs.collapse).bind ?_
  rintro e _ ⟨rfl, he⟩
  cases e with
  | get path => exact .pure rfl
  | post path body =>
    refine (extractBody_agrees he).bind ?_
    rintro b _ rfl
    exact .pure rfl
  | general method path arguments =>
    refine (Agrees.eq_iff.2 rfl).bind ?_
    rintro m _ rfl
    refine (splitArguments_agrees he).bind ?_
    rintro ⟨headers, body⟩ _ ⟨rfl, hh, hbody⟩
    have hlist := resolveHeaderList_agrees hh hb
    show Agrees Eq (attempt (resolveHeaderList bindings headers) >>= fun _ => _)
      (Body.resolve? body >>= fun b => some
        (Request.mk m (unescape path) ((HeaderExpr.resolveList? bindings headers).getD []) b))
    refine hlist.attempt_eq ((extractBody_agrees hbody).bind ?_)
    rintro b _ rfl
    exact .pure rfl

end

end SpecHarvest.Bytes
