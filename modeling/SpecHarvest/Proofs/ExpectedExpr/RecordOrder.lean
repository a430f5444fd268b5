import SpecHarvest.Proofs.ExpectedExpr.Record

/-!
# The order of the fields of a record

A field of a record is looked for by its name, in the string literals of the field before it, too.
Where the header matchers come first and a literal of theirs names `matchStatus`, the first such
literal decides on the status.

* `Around word raws s`: a text whose literals hold `raws` and around which `word` does not stand
  alone. Header matchers are such texts (`HeaderMatchers.Listed.around`).
* `statusOf?_around`: the status that is found behind such a text, or in it.
* `Expected.parse?_recordOrder`: what a record states in either order, and when that is the same.
-/

namespace SpecHarvest

open Text Source

/-! ## Texts around literals -/

namespace Source

/-- A text in which literals hold the given texts, in this order, and around which a word does not
stand alone. -/
inductive Around (word : Text) : List Text → Text → Prop
  | nil {x : Text} : keyword? word x = none → Around word [] x
  | cons {x raw s : Text} {raws : List Text} : keyword? word x = none → Around word raws s →
    Around word (raw :: raws) (x ++ '"' :: (raw ++ '"' :: s))

variable {word : Text} {raws raws' : List Text} {s t : Text}

theorem Around.of_not_mem {c : Char} (hc : c ∈ word) (hs : c ∉ s) : Around word [] s :=
  .nil (keyword?_eq_none_of_not_mem hc hs)

section
variable (hne : word ≠ []) (hw : word.all isIdentChar = true)
include hne hw

theorem Around.append_cons {q : Char} (hq : isIdentChar q = false) (h : Around word raws s)
    (h' : Around word raws' t) : Around word (raws ++ raws') (s ++ q :: t) := by
  induction h with
  | @nil x hx =>
    have hjoin {y : Text} (hy : keyword? word y = none) : keyword? word (x ++ q :: y) = none := by
      rw [keyword?_append_cons hne hw hq, hx, hy]
      rfl
    cases h' with
    | nil hy => exact .nil (hjoin hy)
    | @cons y raw s raws hy h =>
      rw [← List.cons_append, ← List.append_assoc]
      exact .cons (hjoin hy) h
  | @cons x raw s raws hx _ ih => simpa using Around.cons hx ih

theorem Around.gaps (g₁ g₂ : Gap) (h : Around word raws s) :
    Around word raws (g₁.1 ++ (s ++ g₂.1)) := by
  have hblank {g : Text} (hg : allBlank g = true) : Around word [] g := by
    have hk := keyword?_append_of_allBlank hne hw hg []
    rw [List.append_nil] at hk
    exact .nil (hk.trans (keyword?_eq_none fun h => hne (List.eq_nil_of_infix_nil h)))
  have hright : Around word raws (s ++ g₂.1) := by
    obtain ⟨g, hg⟩ := g₂
    cases g with
    | nil => simpa using h
    | cons b g =>
      rw [allBlank, List.all_cons, Bool.and_eq_true] at hg
      simpa using h.append_cons hne hw (isIdentChar_of_isBlank hg.1) (hblank hg.2)
  obtain ⟨g, hg⟩ := g₁
  induction g with
  | nil => exact hright
  | cons b g ih =>
    rw [allBlank, List.all_cons, Bool.and_eq_true] at hg
    have hnil : Around word [] [] := hblank rfl
    simpa using hnil.append_cons hne hw (isIdentChar_of_isBlank hg.1) (ih hg.2)

end

end Source

/-! ## Header matchers -/

open ExpectedExpr

namespace HeaderMatcher

variable {s : Text} {raws : List Text} {m : HeaderMatcher}

theorem matchStatus_facts : "matchStatus".toList ≠ [] ∧
    "matchStatus".toList.all isIdentChar = true := by decide

/-- The word `matchStatus` stands in no matcher but in its literals. -/
theorem Written.around (h : Written s raws m) : Around "matchStatus".toList raws s := by
  have hgap {g : Text} (hg : Text.allBlank g = true) : 'S' ∉ g := not_mem_of_all hg (by decide)
  have hcall (g : Space) : 'S' ∉ "matchHeaderAbsent".toList ++ g.1 := by
    rw [List.mem_append, not_or]
    exact ⟨by decide, hgap g.2.2⟩
  have hnone {x : Text} (hx : 'S' ∉ x) : keyword? "matchStatus".toList x = none :=
    keyword?_eq_none_of_not_mem (c := 'S') (by decide) hx
  have hnil : Around "matchStatus".toList [] [] := .nil (hnone (by decide))
  cases h with
  | @exact g₁ g₂ name raw _ _ _ _ =>
    have hmiddle : 'S' ∉ g₁.1 ++ ("<:>".toList ++ g₂.1) := by
      rw [List.mem_append, List.mem_append, not_or, not_or]
      exact ⟨hgap g₁.2, by decide, hgap g₂.2⟩
    have hpair : Around "matchStatus".toList [name, raw] ([] ++ '"' :: (name ++ '"' ::
        ((g₁.1 ++ ("<:>".toList ++ g₂.1)) ++ '"' :: (raw ++ '"' :: [])))) :=
      .cons (hnone (by decide)) (.cons (hnone hmiddle) hnil)
    simpa using hpair
  | @absent g raw _ _ _ =>
    have hliteral : Around "matchStatus".toList [raw]
        (("matchHeaderAbsent".toList ++ g.1) ++ '"' :: (raw ++ '"' :: [])) :=
      .cons (hnone (hcall g)) hnil
    simpa using hliteral
  | absentContentType g =>
    rw [← List.append_assoc]
    refine .nil (hnone ?_)
    rw [List.mem_append, not_or]
    exact ⟨hcall g, by decide⟩
  | @contentType p hp =>
    have hall : ∀ p ∈ contentTypes, keyword? "matchStatus".toList p.1 = none := by decide
    exact .nil (hall p hp)

theorem Item.around (h : Item s raws m) : Around "matchStatus".toList raws s := by
  obtain ⟨hne, hw⟩ := matchStatus_facts
  cases h with
  | mk g₁ g₂ h => exact h.around.gaps hne hw g₁ g₂

theorem Items.around {ms : List HeaderMatcher} (h : Items s raws ms) :
    Around "matchStatus".toList raws s := by
  obtain ⟨hne, hw⟩ := matchStatus_facts
  induction h with
  | last h => exact h.around
  | cons h _ ih => exact h.around.append_cons hne hw (by decide) ih

end HeaderMatcher

/-- **A list of matchers** names the status in its literals only. -/
theorem HeaderMatchers.Listed.around {list : Text} {raws : List Text} {ms : List HeaderMatcher}
    (h : Listed list raws ms) : Around "matchStatus".toList raws list := by
  obtain ⟨hne, hw⟩ := HeaderMatcher.matchStatus_facts
  have hnil : Around "matchStatus".toList [] [] := .of_not_mem (c := 'S') (by decide) (by decide)
  have hbrackets {s : Text} {raws : List Text} (h : Around "matchStatus".toList raws s) :
      Around "matchStatus".toList raws ('[' :: (s ++ [']'])) := by
    simpa using hnil.append_cons hne hw (q := '[') (by decide)
      (h.append_cons hne hw (q := ']') (by decide) hnil)
  cases h with
  | empty g =>
    exact hbrackets (.of_not_mem (c := 'S') (by decide) (not_mem_of_all g.2 (by decide)))
  | items h => exact hbrackets h.around

namespace ExpectedExpr

/-! ## The status -/

/-- Whether the status is named in a text. -/
def namesStatus (s : Text) : Bool := (keyword? "matchStatus".toList s).isSome

theorem statusOf?_congr {s t : Text}
    (h : field? "matchStatus".toList s = field? "matchStatus".toList t) :
    statusOf? s = statusOf? t := by
  rw [statusOf?, statusOf?, h]

/-- What is named in a literal has its value there, and nothing behind the closing quote counts. -/
theorem statusOf?_of_literal {raw : Text} (h : namesStatus raw = true) (z : Text) :
    statusOf? (raw ++ '"' :: z) = statusOf? raw := by
  obtain ⟨hne, hw⟩ := HeaderMatcher.matchStatus_facts
  obtain ⟨tail, ht⟩ := Option.isSome_iff_exists.1 h
  have hfield : field? "matchStatus".toList (raw ++ '"' :: z) =
      (field? "matchStatus".toList raw).map (· ++ '"' :: z) := by
    rw [field?, field?, keyword?_append_cons hne hw (by decide), ht]
    simp only [Option.map_some, Option.some_or, Option.bind_eq_bind, Option.bind_some]
    rw [trimStart_append_cons (by decide), after?_append_cons (by decide)]
    cases after? ['='] (trimStart tail) with
    | none => rfl
    | some r => simp [trimStart_append_cons (show isBlank '"' = false by decide)]
  rw [statusOf?, statusOf?, hfield]
  cases field? "matchStatus".toList raw with
  | none => rfl
  | some v =>
    simp only [Option.map_some, natural?_append_cons (show '"'.isDigit = false by decide)]
    cases natural? v <;> rfl

/-- **The status behind a text with literals** is decided by the first literal that names it. -/
theorem statusOf?_around {raws : List Text} {s : Text} (h : Around "matchStatus".toList raws s)
    {q : Char} (hq : isIdentChar q = false) (y : Text) :
    statusOf? (s ++ q :: y) = (raws.find? namesStatus).elim (statusOf? y) statusOf? := by
  induction h with
  | nil hx => exact statusOf?_congr (field?_append_cons (by decide) hx hq y)
  | @cons x raw s raws hx _ ih =>
    have htext : (x ++ '"' :: (raw ++ '"' :: s)) ++ q :: y =
        x ++ '"' :: (raw ++ '"' :: (s ++ q :: y)) := by simp
    rw [htext, statusOf?_congr (field?_append_cons (by decide) hx (by decide) _)]
    cases hn : namesStatus raw with
    | true => rw [statusOf?_of_literal hn, List.find?_cons_of_pos hn, Option.elim_some]
    | false =>
      have hraw : keyword? "matchStatus".toList raw = none := by simpa [namesStatus] using hn
      rw [statusOf?_congr (field?_append_cons (by decide) hraw (by decide) _), ih,
        List.find?_cons_of_neg (by simp [hn])]

/-- A record with the header matchers in front states them, and the status that is found. -/
theorem expectation?_headersFirst {n : Nat} {ds list block : Text} {raws : List Text}
    {ms : List HeaderMatcher} (hds : Digits ds n) (hn : 100 ≤ n ∧ n ≤ 599)
    (hl : HeaderMatchers.Listed list raws ms)
    (h : Record "matchHeaders".toList list "matchStatus".toList ds block)
    (body : Option Json.Value) : expectation? body (some block) =
      ((raws.find? namesStatus).elim (some n) statusOf?).map (expectationOf · ms body) := by
  obtain ⟨hne, hw⟩ := HeaderMatcher.matchStatus_facts
  obtain ⟨g, r, hheaders⟩ := field?_first (by decide) (trimStart_list hl) h
  obtain ⟨g₁, g₂, y, hstatus, hy⟩ :=
    field?_second (c := 'S') (by decide) (trimStart_digits hds) (by decide) (by decide) h
  have hlast : statusOf? y = some n :=
    statusOf?_of_field? hds hn hy (endsHere_end (fun _ => isDigit_of_isBlank) g₂)
  have haround : Around "matchStatus".toList raws (list ++ g₁.1) :=
    hl.around.gaps hne hw Gap.none g₁
  rw [expectation?_of_matchersOf hl (matchersOf_of_field? hl hheaders), statusOf?_congr hstatus,
    statusOf?_around haround (by decide), hlast]

/-! ## The body -/

/-- Characters that neither open nor close a quasi-literal. -/
def isOutside (c : Char) : Bool := c != '[' && c != ']' && c != '|'

variable {name value name' value' block : Text}

theorem all_isOutside_of_class {p : Char → Bool} {s : Text} (hs : s.all p = true)
    (hp : ("[]|".toList).all (!p ·) = true) : s.all isOutside = true := by
  rw [List.all_eq_true] at hp ⊢
  intro c hc
  have hne {d : Char} (hd : d ∈ "[]|".toList) : c ≠ d := by
    rintro rfl
    exact not_mem_of_all hs (by simpa using hp c hd) hc
  simp [isOutside, hne]

theorem all_isOutside_gap (g : Gap) : g.1.all isOutside = true :=
  all_isOutside_of_class g.2 (by decide)

theorem all_isOutside_matchFields : ∀ name ∈ matchFields, name.all isOutside = true := by decide

theorem Record.exists_eq_first (hname : name ∈ matchFields) (hname' : name' ∈ matchFields)
    (hv : value'.all isOutside = true) (h : Record name value name' value' block) :
    ∃ x y, block = x ++ (value ++ y) ∧ x.all isOutside = true ∧ y.all isOutside = true := by
  have hn := all_isOutside_matchFields name hname
  have hn' := all_isOutside_matchFields name' hname'
  cases h with
  | mk g₁ g₂ g₃ g₄ hf hf' =>
    cases hf with
    | mk g₅ g₆ =>
    cases hf' with
    | mk g₇ g₈ =>
      refine ⟨g₁.1 ++ (name ++ (g₅.1 ++ '=' :: g₆.1)),
        g₂.1 ++ ',' :: (g₃.1 ++ (name' ++ (g₇.1 ++ '=' :: (g₈.1 ++ (value' ++ g₄.1))))),
        by simp, ?_, ?_⟩
      · simp [all_isOutside_gap, hn, show isOutside '=' = true by decide]
      · simp [all_isOutside_gap, hn', hv, show isOutside '=' = true by decide,
          show isOutside ',' = true by decide]

theorem Record.exists_eq_second (hname : name ∈ matchFields) (hname' : name' ∈ matchFields)
    (hv : value.all isOutside = true) (h : Record name value name' value' block) :
    ∃ x y, block = x ++ (value' ++ y) ∧ x.all isOutside = true ∧ y.all isOutside = true := by
  have hn := all_isOutside_matchFields name hname
  have hn' := all_isOutside_matchFields name' hname'
  cases h with
  | mk g₁ g₂ g₃ g₄ hf hf' =>
    cases hf with
    | mk g₅ g₆ =>
    cases hf' with
    | mk g₇ g₈ =>
      refine ⟨g₁.1 ++ (name ++ (g₅.1 ++ '=' :: (g₆.1 ++ (value ++ (g₂.1 ++ ',' ::
        (g₃.1 ++ (name' ++ (g₇.1 ++ '=' :: g₈.1)))))))), g₄.1, by simp, ?_, all_isOutside_gap g₄⟩
      simp [all_isOutside_gap, hn, hn', hv, show isOutside '=' = true by decide,
        show isOutside ',' = true by decide]

/-- The body of an empty literal, unless a quasi-literal follows it. -/
theorem body?_emptyLiteral {s t : Text} (h : quasiContent? s = quasiContent? t) :
    body? (literal [] ++ s) = body? (literal [] ++ t) := by
  have hq : '[' ∉ literal [] := by decide
  rw [body?, body?, quasiContent?_append_left hq, quasiContent?_append_left hq, h]
  cases quasiContent? t <;> rfl

theorem quasiContent?_surrounded {x y : Text} (hx : x.all isOutside = true)
    (hy : y.all isOutside = true) (s : Text) : quasiContent? (x ++ (s ++ y)) = quasiContent? s := by
  rw [quasiContent?_append_left (not_mem_of_all hx (by decide)),
    quasiContent?_append_right (not_mem_of_all hy (by decide)) (not_mem_of_all hy (by decide))]

/-- An empty body literal with a record: a quasi-literal in the value of a field counts as body. -/
theorem parse?_emptyLiteral {x y : Text} (hb : block = x ++ (value ++ y))
    (hx : x.all isOutside = true) (hy : y.all isOutside = true)
    (hrecord : attributes? ('{' :: (block ++ ['}'])) = some block) (g : Gap) :
    Expected.parse? (literal [] ++ (g.1 ++ '{' :: (block ++ ['}']))) =
      (body? (literal [] ++ value)).bind fun body => expectation? body (some block) := by
  have htrim : trim (literal [] ++ (g.1 ++ '{' :: (block ++ ['}']))) =
      literal [] ++ (g.1 ++ '{' :: (block ++ ['}'])) := by
    have htext : literal [] ++ (g.1 ++ '{' :: (block ++ ['}'])) =
        '"' :: (('"' :: (g.1 ++ '{' :: block)) ++ ['}']) := by simp [literal]
    rw [htext, trim_cons_append_singleton (by decide) (by decide)]
  have hfront : '{' ∉ literal [] ++ g.1 := by
    rw [List.mem_append, not_or]
    exact ⟨by decide, not_mem_of_all g.2 (by decide)⟩
  have hquasi : quasiContent? (g.1 ++ '{' :: (block ++ ['}'])) = quasiContent? value := by
    have htext : g.1 ++ '{' :: (block ++ ['}']) = (g.1 ++ '{' :: x) ++ (value ++ (y ++ ['}'])) := by
      simp [hb]
    rw [htext, quasiContent?_surrounded]
    · simp [all_isOutside_gap, hx, show isOutside '{' = true by decide]
    · simp [hy, show isOutside '}' = true by decide]
  rw [Expected.parse?_of_trim htrim rfl, body?_emptyLiteral hquasi, ← List.append_assoc,
    attributes?_append_of_forall hfront, hrecord]

end ExpectedExpr

/-! ## The expectation -/

/-- **The two orders of a record.** With the status in front it is what is stated. With the header
matchers in front, the first literal in them that names a status decides on it; so the order makes
no difference just if that literal gives the same status, or the body is unreadable. -/
theorem Expected.parse?_recordOrder {n : Nat} {ds list block block' : Text} {raws : List Text}
    {ms : List HeaderMatcher} (hds : Digits ds n) (hn : 100 ≤ n ∧ n ≤ 599)
    (hl : HeaderMatchers.Listed list raws ms)
    (h : Record "matchStatus".toList ds "matchHeaders".toList list block)
    (h' : Record "matchHeaders".toList list "matchStatus".toList ds block') (g g' : Gap) :
    Expected.parse? (literal [] ++ (g.1 ++ '{' :: (block ++ ['}']))) =
      (body? (literal [] ++ list)).map (expectationOf n ms) ∧
    Expected.parse? (literal [] ++ (g'.1 ++ '{' :: (block' ++ ['}']))) =
      (body? (literal [] ++ list)).bind (fun body =>
        ((raws.find? namesStatus).elim (some n) statusOf?).map (expectationOf · ms body)) ∧
    (Expected.parse? (literal [] ++ (g.1 ++ '{' :: (block ++ ['}']))) =
        Expected.parse? (literal [] ++ (g'.1 ++ '{' :: (block' ++ ['}']))) ↔
      body? (literal [] ++ list) = none ∨
        ∀ raw, raws.find? namesStatus = some raw → statusOf? raw = some n) := by
  have hdigits := all_isOutside_of_class hds.all_isDigit (by decide)
  have hnested := (nested_word hds.all_isIdentChar).weaken
  have hfirst : Expected.parse? (literal [] ++ (g.1 ++ '{' :: (block ++ ['}']))) =
      (body? (literal [] ++ list)).map (expectationOf n ms) := by
    obtain ⟨x, y, hb, hx, hy⟩ := h.exists_eq_second (by decide) (by decide) hdigits
    have hrecord := attributes?_record (by decide) (by decide) hnested (nested_list hl) h []
    rw [parse?_emptyLiteral hb hx hy hrecord, Option.map_eq_bind]
    exact Option.bind_congr fun body _ => expectation?_statusFirst hds hn hl h body
  have hsecond : Expected.parse? (literal [] ++ (g'.1 ++ '{' :: (block' ++ ['}']))) =
      (body? (literal [] ++ list)).bind (fun body =>
        ((raws.find? namesStatus).elim (some n) statusOf?).map (expectationOf · ms body)) := by
    obtain ⟨x, y, hb, hx, hy⟩ := h'.exists_eq_first (by decide) (by decide) hdigits
    have hrecord := attributes?_record (by decide) (by decide) (nested_list hl) hnested h' []
    rw [parse?_emptyLiteral hb hx hy hrecord]
    exact Option.bind_congr fun body _ => expectation?_headersFirst hds hn hl h' body
  refine ⟨hfirst, hsecond, ?_⟩
  rw [hfirst, hsecond]
  cases body? (literal [] ++ list) with
  | none => simp
  | some body =>
    cases hfind : raws.find? namesStatus with
    | none => simp
    | some raw =>
      have hstatus {k : Nat} : expectationOf k ms body = expectationOf n ms body ↔ k = n :=
        ⟨fun h => congrArg Expected.status h, fun h => h ▸ rfl⟩
      simp only [Option.map_some, Option.bind_some, Option.elim_some, reduceCtorEq, false_or,
        Option.some.injEq, forall_eq', eq_comm (a := some (expectationOf n ms body)),
        Option.map_eq_some_iff, hstatus, exists_eq_right]

/-- A pair whose value is the name of the other field. -/
def namingList : Text := "[\"A\" <:> \"matchStatus\"]".toList

/-- What its literals hold. -/
def namingRaws : List Text := ["A".toList, "matchStatus".toList]

/-- The pair. -/
def namingMatchers : List HeaderMatcher := [.exact "A".toList "matchStatus".toList]

theorem listed_namingList : HeaderMatchers.Listed namingList namingRaws namingMatchers := by
  have hname : HeaderMatcher.IsToken "A".toList := by decide
  have hvalue : Denotes "matchStatus".toList "matchStatus".toList := ⟨by decide, by decide⟩
  have hpair : HeaderMatcher.Written "\"A\" <:> \"matchStatus\"".toList namingRaws
      (.exact "A".toList "matchStatus".toList) :=
    .exact ⟨[' '], by decide⟩ ⟨[' '], by decide⟩ hname (by decide) hvalue
  exact .items (.last (.mk .none .none hpair))

theorem digits_404 : Digits "404".toList 404 := ⟨by decide, by decide, by decide, by decide⟩

/-- The pair behind a status, and in front of it. -/
def namingBlock (statusFirst : Bool) : Text :=
  if statusFirst then " matchStatus = 404, matchHeaders = ".toList ++ (namingList ++ [' '])
  else " matchHeaders = ".toList ++ (namingList ++ ", matchStatus = 404 ".toList)

theorem record_namingBlock :
    Record "matchStatus".toList "404".toList "matchHeaders".toList namingList (namingBlock true) ∧
    Record "matchHeaders".toList namingList "matchStatus".toList "404".toList
      (namingBlock false) := by
  have hspace : allBlank [' '] = true := by decide
  exact ⟨.mk ⟨[' '], hspace⟩ .none ⟨[' '], hspace⟩ ⟨[' '], hspace⟩
      (.mk ⟨[' '], hspace⟩ ⟨[' '], hspace⟩) (.mk ⟨[' '], hspace⟩ ⟨[' '], hspace⟩),
    .mk ⟨[' '], hspace⟩ .none ⟨[' '], hspace⟩ ⟨[' '], hspace⟩
      (.mk ⟨[' '], hspace⟩ ⟨[' '], hspace⟩) (.mk ⟨[' '], hspace⟩ ⟨[' '], hspace⟩)⟩

theorem Expected.parse?_recordOrder_naming : Digits "404".toList 404 ∧
    HeaderMatchers.Listed namingList namingRaws namingMatchers ∧
    Expected.parse? (literal [] ++ ([' '] ++ '{' :: (namingBlock true ++ ['}']))) =
      some (expectationOf 404 namingMatchers (some (.string []))) ∧
    Expected.parse? (literal [] ++ ([' '] ++ '{' :: (namingBlock false ++ ['}']))) =
      some (expectationOf 200 namingMatchers (some (.string []))) := by
  obtain ⟨h, h'⟩ := record_namingBlock
  obtain ⟨hfirst, hsecond, -⟩ := Expected.parse?_recordOrder digits_404 (by decide)
    listed_namingList h h' ⟨[' '], by decide⟩ ⟨[' '], by decide⟩
  have hbody : body? (literal [] ++ namingList) = some (some (.string [])) := rfl
  have hfind : namingRaws.find? namesStatus = some "matchStatus".toList := by decide
  have hstatus : statusOf? "matchStatus".toList = some 200 := by decide
  refine ⟨digits_404, listed_namingList, hfirst.trans (by rw [hbody]; rfl), hsecond.trans ?_⟩
  rw [hbody, hfind, Option.bind_some, Option.elim_some, hstatus]
  rfl

/-- **The order of the fields is not indifferent**: a header value that names the status takes it
from the field behind it. -/
theorem Expected.not_recordOrder : ¬∀ (n : Nat) (ds list : Text) (raws : List Text)
    (ms : List HeaderMatcher), Digits ds n → 100 ≤ n ∧ n ≤ 599 →
    HeaderMatchers.Listed list raws ms →
    (∀ name, HeaderMatcher.absent name ∈ ms → HeaderMatcher.IsToken name) →
    Expected.parse? ("\"\" \x7b matchStatus = ".toList ++
        (ds ++ (", matchHeaders = ".toList ++ (list ++ " \x7d".toList)))) =
      Expected.parse? ("\"\" \x7b matchHeaders = ".toList ++
        (list ++ (", matchStatus = ".toList ++ (ds ++ " \x7d".toList)))) := by
  intro h
  have heq := h 404 "404".toList namingList namingRaws namingMatchers digits_404 (by decide)
    listed_namingList (by simp [namingMatchers])
  have hstatus := congrArg (Option.map Expected.status) heq
  revert hstatus
  decide +kernel

end SpecHarvest
