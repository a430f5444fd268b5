import SpecHarvest.Proofs.ExpectedExpr.Body
import SpecHarvest.Proofs.HeaderMatcher.Written

/-!
# Records of match attributes

An expectation with a body literal may go on with a record of match attributes,
`{ matchStatus = 201, matchHeaders = […] }`.

* `Field name value f` and `Record name value name' value' block`: how a field is written, and what
  the braces of a record of two fields enclose, white space between the parts included.
* `attributes?_record`: the record is found behind a text that does not name its fields.
* `field?_first`, `field?_second`: what is read as the value of either field. The second one is
  looked for in the value of the first, too.
* `Expected.parse?_quasiRecord`: the expectation of a quasi-literal with the status and the header
  matchers, in this order.
-/

namespace SpecHarvest

open Text Source Json

namespace ExpectedExpr

/-! ## Forms -/

/-- A field of a record. -/
inductive Field (name value : Text) : Text → Prop
  | mk (g₁ g₂ : Gap) : Field name value (name ++ (g₁.1 ++ '=' :: (g₂.1 ++ value)))

/-- What a record of two fields encloses. -/
inductive Record (name value name' value' : Text) : Text → Prop
  | mk (g₁ g₂ g₃ g₄ : Gap) {f f' : Text} : Field name value f → Field name' value' f' →
    Record name value name' value' (g₁.1 ++ (f ++ (g₂.1 ++ ',' :: (g₃.1 ++ (f' ++ g₄.1)))))

variable {name value name' value' block : Text}

theorem matchFields_facts : ∀ name ∈ matchFields, name ≠ [] ∧ name.all isIdentChar = true := by
  decide

/-! ## Finding the record -/

theorem attributes?_append_of_forall {x : Text} (hx : '{' ∉ x) (y : Text) :
    attributes? (x ++ y) = attributes? y := by
  induction x with
  | nil => rfl
  | cons c x ih =>
    rw [List.mem_cons, not_or] at hx
    have hc : ¬(decide (c = '{') && matchFields.any (startsWith · (trimStart (x ++ y)))) = true := by
      simp [Ne.symm hx.1]
    rw [List.cons_append, attributes?, if_neg hc, ih hx.2]

/-- A text that does not name a field holds no record, whatever follows it that cannot go on with a
name. -/
theorem attributes?_append_cons {x : Text} (hx : ∀ name ∈ matchFields, contains name x = false)
    {q : Char} (hblank : isBlank q = false) (hq : isIdentChar q = false) (y : Text) :
    attributes? (x ++ q :: y) = attributes? (q :: y) := by
  have hmem : ∀ name ∈ matchFields, q ∉ name := by
    intro name hname hm
    rw [List.all_eq_true.1 (matchFields_facts name hname).2 q hm] at hq
    cases hq
  induction x with
  | nil => rfl
  | cons c x ih =>
    have htail : ∀ name ∈ matchFields, contains name x = false := fun name hname =>
      (contains_cons_eq_false (hx name hname)).2
    have hany : matchFields.any (startsWith · (trimStart (x ++ q :: y))) = false := by
      rw [List.any_eq_false]
      intro name hname hstart
      rw [trimStart_append] at hstart
      split at hstart
      · rw [trimStart_cons_of_not_blank hblank, ← List.nil_append (q :: y),
          startsWith_append (hmem name hname), startsWith_iff] at hstart
        obtain ⟨r, hr⟩ := hstart
        exact (matchFields_facts name hname).1 (List.append_eq_nil_iff.1 hr.symm).1
      · rw [startsWith_append (hmem name hname), startsWith_iff] at hstart
        obtain ⟨r, hr⟩ := hstart
        have hin : name <:+: x :=
          List.IsInfix.trans ⟨[], r, hr.symm⟩ (List.dropWhile_suffix isBlank).isInfix
        rw [← contains_iff, htail name hname] at hin
        cases hin
    rw [List.cons_append, attributes?, hany, Bool.and_false, if_neg Bool.false_ne_true, ih htail]

theorem Record.nested (hname : name ∈ matchFields) (hname' : name' ∈ matchFields)
    (hvalue : Nested none value) (hvalue' : Nested none value')
    (h : Record name value name' value' block) : Nested none block := by
  have hfield {name value f : Text} (hname : name ∈ matchFields) (hv : Nested none value)
      (h : Field name value f) : Nested none f := by
    cases h with
    | mk g₁ g₂ =>
      exact (nested_word (matchFields_facts name hname).2).weaken.append
        ((nested_blank g₁.2).weaken.append (.char (by decide) (by decide) (by decide)
          ((nested_blank g₂.2).weaken.append hv)))
  cases h with
  | mk g₁ g₂ g₃ g₄ hf hf' =>
    exact (nested_blank g₁.2).weaken.append ((hfield hname hvalue hf).append
      ((nested_blank g₂.2).weaken.append (.char (by decide) (by decide) (by decide)
        ((nested_blank g₃.2).weaken.append ((hfield hname' hvalue' hf').append
          (nested_blank g₄.2).weaken)))))

theorem Record.startsWith_field (hname : name ∈ matchFields)
    (h : Record name value name' value' block) (r : Text) :
    matchFields.any (startsWith · (trimStart (block ++ r))) = true := by
  obtain ⟨hne, hident⟩ := matchFields_facts name hname
  rw [List.any_eq_true]
  refine ⟨name, hname, ?_⟩
  cases h with
  | mk g₁ g₂ g₃ g₄ hf hf' =>
    cases hf with
    | mk g₅ g₆ =>
      rw [List.append_assoc, List.append_assoc, List.append_assoc,
        trimStart_gap g₁ (trimStart_word hne hident _)]
      exact startsWith_append_self name _

/-- **A record is found** where it starts with a field. -/
theorem attributes?_record (hname : name ∈ matchFields) (hname' : name' ∈ matchFields)
    (hvalue : Nested none value) (hvalue' : Nested none value')
    (h : Record name value name' value' block) (rest : Text) :
    attributes? ('{' :: (block ++ '}' :: rest)) = some block := by
  have hm := (h.nested hname hname' hvalue hvalue').bracketed? (b := ('{', '}')) (by decide) rest
  rw [bracketed?, if_pos rfl] at hm
  rw [attributes?, h.startsWith_field hname, hm]
  rfl

/-! ## Reading its fields -/

theorem field?_of_keyword? (g g' : Gap) {r : Text}
    (hk : keyword? name block = some (g.1 ++ '=' :: (g'.1 ++ r))) (hr : trimStart r = r) :
    field? name block = some r := by
  have hequals : trimStart (g.1 ++ '=' :: (g'.1 ++ r)) = '=' :: (g'.1 ++ r) :=
    trimStart_gap g (trimStart_cons_of_not_blank (by decide) _)
  rw [field?, hk]
  simp [hequals, after?, trimStart_gap g' hr]

/-- **The first field** has the value that it is given. -/
theorem field?_first (hname : name ∈ matchFields) (hvalue : ∀ r, trimStart (value ++ r) = value ++ r)
    (h : Record name value name' value' block) :
    ∃ (g : Gap) (r : Text), field? name block = some (value ++ (g.1 ++ ',' :: r)) := by
  obtain ⟨hne, hident⟩ := matchFields_facts name hname
  cases h with
  | @mk g₁ g₂ g₃ g₄ _ f' hf hf' =>
    cases hf with
    | mk g₅ g₆ =>
      refine ⟨g₂, g₃.1 ++ (f' ++ g₄.1), field?_of_keyword? g₅ g₆ ?_ (hvalue _)⟩
      rw [keyword?_append_of_allBlank hne hident g₁.2, List.append_assoc,
        keyword?_append hne hident]
      · simp
      · rw [List.append_assoc]
        exact endsHere_gap (fun _ => isIdentChar_of_isBlank) g₅ (by decide) _

theorem field?_congr {s t : Text} (h : keyword? name s = keyword? name t) :
    field? name s = field? name t := by
  rw [field?, field?, h]

/-- **The second field** is looked for in the value of the first one, too. Behind it, it has the
value that it is given. -/
theorem field?_second (hname' : name' ∈ matchFields)
    (hvalue' : ∀ r, trimStart (value' ++ r) = value' ++ r) {c : Char} (hc : c ∈ name')
    (hn : c ∉ name) (h : Record name value name' value' block) : ∃ (g g' : Gap) (y : Text),
      field? name' block = field? name' ((value ++ g.1) ++ ',' :: y) ∧
        field? name' y = some (value' ++ g'.1) := by
  obtain ⟨hne, hident⟩ := matchFields_facts name' hname'
  cases h with
  | @mk g₁ g₂ g₃ g₄ _ _ hf hf' =>
    cases hf with
    | mk g₅ g₆ =>
    cases hf' with
    | mk g₇ g₈ =>
      refine ⟨g₂, g₄, g₃.1 ++ ((name' ++ (g₇.1 ++ '=' :: (g₈.1 ++ value'))) ++ g₄.1),
        field?_congr ?_, field?_of_keyword? g₇ g₈ ?_ (hvalue' _)⟩
      · -- the name of the first field is not that of the second
        have hfront : keyword? name' (name ++ g₅.1) = none := by
          refine keyword?_eq_none_of_not_mem hc ?_
          have hblank := isBlank_of_isIdentChar (List.all_eq_true.1 hident c hc)
          rw [List.mem_append, not_or]
          exact ⟨hn, not_mem_of_all g₅.2 hblank⟩
        have htext (y : Text) : (name ++ (g₅.1 ++ '=' :: (g₆.1 ++ value))) ++ (g₂.1 ++ ',' :: y) =
            (name ++ g₅.1) ++ '=' :: (g₆.1 ++ ((value ++ g₂.1) ++ ',' :: y)) := by simp
        rw [keyword?_append_of_allBlank hne hident g₁.2, htext,
          keyword?_append_cons hne hident (by decide), hfront, Option.map_none, Option.none_or,
          keyword?_append_of_allBlank hne hident g₆.2]
      · have htext : (name' ++ (g₇.1 ++ '=' :: (g₈.1 ++ value'))) ++ g₄.1 =
            name' ++ (g₇.1 ++ '=' :: (g₈.1 ++ (value' ++ g₄.1))) := by simp
        rw [keyword?_append_of_allBlank hne hident g₃.2, htext, keyword?_append hne hident]
        exact endsHere_gap (fun _ => isIdentChar_of_isBlank) g₇ (by decide) _

theorem field?_append_cons (hname : name ∈ matchFields) {x : Text} (hx : keyword? name x = none)
    {q : Char} (hq : isIdentChar q = false) (y : Text) :
    field? name (x ++ q :: y) = field? name y := by
  obtain ⟨hne, hident⟩ := matchFields_facts name hname
  refine field?_congr ?_
  rw [keyword?_append_cons hne hident hq, hx]
  rfl

/-! ## Status and header matchers -/

theorem statusOf?_of_field? {ds rest : Text} {n : Nat} (hds : Digits ds n) (hn : 100 ≤ n ∧ n ≤ 599)
    (h : field? "matchStatus".toList block = some (ds ++ rest))
    (hr : endsHere Char.isDigit rest = true) : statusOf? block = some n := by
  rw [statusOf?, h]
  simp [natural?_digits hds hr, status?, hn]

theorem matchersOf_of_field? {list rest : Text} {raws : List Text} {ms : List HeaderMatcher}
    (hl : HeaderMatchers.Listed list raws ms)
    (h : field? "matchHeaders".toList block = some (list ++ rest)) :
    matchersOf block = .ofList ms := by
  have hread := HeaderMatchers.parse?_of_listed hl
  obtain ⟨inner, rfl, hinner⟩ := hl.exists_eq
  have hlist : listAt? (('[' :: (inner ++ [']'])) ++ rest) = some ('[' :: (inner ++ [']'])) := by
    have hb := hinner.bracketed? (b := ('[', ']')) (by decide) rest
    have htext : ('[' :: (inner ++ [']'])) ++ rest = '[' :: (inner ++ ']' :: rest) := by simp
    rw [listAt?, htext, hb]
    rfl
  rw [matchersOf, h, Option.bind_some, hlist, Option.bind_some, hread, Option.getD_some]

theorem trimStart_digits {ds : Text} {n : Nat} (h : Digits ds n) (r : Text) :
    trimStart (ds ++ r) = ds ++ r :=
  trimStart_word h.ne_nil h.all_isIdentChar r

theorem trimStart_list {list : Text} {raws : List Text} {ms : List HeaderMatcher}
    (h : HeaderMatchers.Listed list raws ms) (r : Text) : trimStart (list ++ r) = list ++ r := by
  obtain ⟨inner, rfl, -⟩ := h.exists_eq
  exact trimStart_cons_of_not_blank (by decide) _

theorem nested_list {list : Text} {raws : List Text} {ms : List HeaderMatcher}
    (h : HeaderMatchers.Listed list raws ms) : Nested none list := by
  obtain ⟨inner, rfl, hinner⟩ := h.exists_eq
  exact .bracketed (b := ('[', ']')) (by decide) hinner .nil

/-- The expectation of a status, a body and header matchers. -/
def expectationOf (n : Nat) (ms : List HeaderMatcher) (body : Option Value) : Expected where
  status := n
  body := body
  bodyExact := true
  headers := (HeaderMatchers.ofList ms).exact
  headersAbsent := (HeaderMatchers.ofList ms).absent
  headersContain := []

theorem expectation?_of_matchersOf {list : Text} {raws : List Text} {ms : List HeaderMatcher}
    (hl : HeaderMatchers.Listed list raws ms) (hm : matchersOf block = .ofList ms)
    (body : Option Value) :
    expectation? body (some block) = (statusOf? block).map (expectationOf · ms body) := by
  rw [expectation?, hm, hl.contain_eq_nil]
  rfl

/-- A record with the status in front states it, and the header matchers. -/
theorem expectation?_statusFirst {n : Nat} {ds list : Text} {raws : List Text}
    {ms : List HeaderMatcher} (hds : Digits ds n) (hn : 100 ≤ n ∧ n ≤ 599)
    (hl : HeaderMatchers.Listed list raws ms)
    (h : Record "matchStatus".toList ds "matchHeaders".toList list block) (body : Option Value) :
    expectation? body (some block) = some (expectationOf n ms body) := by
  obtain ⟨g, r, hstatus⟩ := field?_first (by decide) (trimStart_digits hds) h
  obtain ⟨g₁, g₂, y, hheaders, hy⟩ :=
    field?_second (c := 'H') (by decide) (trimStart_list hl) (by decide) (by decide) h
  have hword : keyword? "matchHeaders".toList (ds ++ g₁.1) = none := by
    refine keyword?_eq_none_of_not_mem (c := 'H') (by decide) ?_
    rw [List.mem_append, not_or]
    exact ⟨not_mem_of_all hds.all_isDigit (by decide), not_mem_of_all g₁.2 (by decide)⟩
  rw [field?_append_cons (by decide) hword (by decide), hy] at hheaders
  rw [expectation?_of_matchersOf hl (matchersOf_of_field? hl hheaders),
    statusOf?_of_field? hds hn hstatus (endsHere_gap (fun _ => isDigit_of_isBlank) g (by decide) r),
    Option.map_some]

end ExpectedExpr

open ExpectedExpr

/-! ## The expectation -/

/-- **A quasi-literal with a record** states the value that it holds, the status and the header
matchers of the record, whatever the strings in them are. -/
theorem Expected.parse?_quasiRecord {v : Value} {n : Nat} {ds list block : Text} {raws : List Text}
    {ms : List HeaderMatcher} (hv : v.Regular) (hd : v.depth ≤ maxDepth)
    (hclose : contains quasiClose v.compact = false)
    (hfields : ∀ name ∈ matchFields, contains name v.compact = false) (hds : Digits ds n)
    (hn : 100 ≤ n ∧ n ≤ 599) (hl : HeaderMatchers.Listed list raws ms)
    (h : Record "matchStatus".toList ds "matchHeaders".toList list block) (g : Gap) :
    Expected.parse? (quasi v.compact ++ (g.1 ++ '{' :: (block ++ ['}']))) = some {
      status := n
      body := some v
      bodyExact := true
      headers := (HeaderMatchers.ofList ms).exact
      headersAbsent := (HeaderMatchers.ofList ms).absent
      headersContain := [] } := by
  have hopen : quasiOpen = '[' :: "json|".toList := by decide
  have hclosing : quasiClose = '|' :: "]".toList := by decide
  have htrim : trim (quasi v.compact ++ (g.1 ++ '{' :: (block ++ ['}']))) =
      quasi v.compact ++ (g.1 ++ '{' :: (block ++ ['}'])) := by
    have htext : quasi v.compact ++ (g.1 ++ '{' :: (block ++ ['}'])) =
        '[' :: (("json|".toList ++ (v.compact ++ (quasiClose ++ (g.1 ++ '{' :: block)))) ++
          ['}']) := by
      rw [quasi, hopen]
      simp only [List.cons_append, List.append_assoc]
    rw [htext, trim_cons_append_singleton (by decide) (by decide)]
  have hrecord : attributes? (quasi v.compact ++ (g.1 ++ '{' :: (block ++ ['}']))) = some block := by
    have hgap : '{' ∉ quasiClose ++ g.1 := by
      rw [List.mem_append, not_or]
      exact ⟨by decide, not_mem_of_all g.2 (by decide)⟩
    rw [quasi, List.append_assoc, attributes?_append_of_forall (by decide), List.append_assoc,
      hclosing, List.cons_append, attributes?_append_cons hfields (by decide) (by decide),
      ← List.cons_append, ← hclosing, ← List.append_assoc, attributes?_append_of_forall hgap]
    exact attributes?_record (by decide) (by decide)
      (nested_word hds.all_isIdentChar).weaken (nested_list hl) h []
  rw [Expected.parse?_of_trim htrim rfl, body?_quasi_append hv hd hclose, hrecord, Option.bind_some,
    expectation?_statusFirst hds hn hl h]
  rfl

/-- A value with brackets in a string. -/
def bracketedItem : Value :=
  .object [("a".toList, .array [.string "]\x7d".toList, .number (.int 1)])]

/-- A pair whose value has a quote, a comma and a bracket in it, and a header that is absent. -/
def locationList : Text :=
  "[\"Location\" <:> \"/p?q=\\\",]\", matchHeaderAbsent hContentType]".toList

/-- What the literals of the pair hold, as written. -/
def locationRaws : List Text := ["Location".toList, "/p?q=\\\",]".toList]

theorem listed_locationList : HeaderMatchers.Listed locationList locationRaws
    [.exact "Location".toList "/p?q=\",]".toList, .absent HeaderMatcher.contentType] := by
  have hname : HeaderMatcher.IsToken "Location".toList := by decide
  have hvalue : Denotes "/p?q=\\\",]".toList "/p?q=\",]".toList := ⟨by decide, by decide⟩
  have hpair : HeaderMatcher.Written "\"Location\" <:> \"/p?q=\\\",]\"".toList locationRaws
      (.exact "Location".toList "/p?q=\",]".toList) :=
    .exact ⟨[' '], by decide⟩ ⟨[' '], by decide⟩ hname (by decide) hvalue
  have habsent : HeaderMatcher.Item " matchHeaderAbsent hContentType".toList []
      (.absent HeaderMatcher.contentType) :=
    .mk ⟨[' '], by decide⟩ .none (.absentContentType ⟨[' '], by decide⟩)
  exact .items (.cons (.mk .none .none hpair) (.last habsent))

/-- A record with the status in front. -/
def locationBlock : Text := " matchStatus = 201, matchHeaders = ".toList ++ (locationList ++ [' '])

theorem record_locationBlock :
    Record "matchStatus".toList "201".toList "matchHeaders".toList locationList locationBlock :=
  .mk ⟨[' '], by decide⟩ .none ⟨[' '], by decide⟩ ⟨[' '], by decide⟩
    (.mk ⟨[' '], by decide⟩ ⟨[' '], by decide⟩) (.mk ⟨[' '], by decide⟩ ⟨[' '], by decide⟩)

theorem Expected.parse?_quasiRecord_location :
    bracketedItem.Regular ∧ bracketedItem.depth ≤ maxDepth ∧
    contains quasiClose bracketedItem.compact = false ∧
    (∀ name ∈ matchFields, contains name bracketedItem.compact = false) ∧ Digits "201".toList 201 ∧
    Expected.parse? ("[json|\x7b\"a\":[\"]\x7d\",1]\x7d|] \x7b".toList ++
      (locationBlock ++ "\x7d".toList)) = some {
        status := 201
        body := some bracketedItem
        bodyExact := true
        headers := [Http.Header.of "Location" "/p?q=\",]"]
        headersAbsent := ["Content-Type".toList]
        headersContain := [] } := by
  have hv : bracketedItem.Regular := by decide
  have hd : bracketedItem.depth ≤ maxDepth := by decide
  have hc : contains quasiClose bracketedItem.compact = false := by decide
  have hf : ∀ name ∈ matchFields, contains name bracketedItem.compact = false := by decide
  have hds : Digits "201".toList 201 := ⟨by decide, by decide, by decide, by decide⟩
  have htext : "[json|\x7b\"a\":[\"]\x7d\",1]\x7d|] \x7b".toList =
      quasi bracketedItem.compact ++ ([' '] ++ ['{']) := by decide
  refine ⟨hv, hd, hc, hf, hds, ?_⟩
  rw [htext, List.append_assoc]
  exact Expected.parse?_quasiRecord hv hd hc hf hds (by decide) listed_locationList
    record_locationBlock ⟨[' '], by decide⟩

end SpecHarvest
