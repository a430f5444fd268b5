import SpecHarvest.Proofs.Json.Value

/-!
# Printed values are read back

* `Scans s σ t`: reading `s` from the state `σ` ends with the tree `t`.
* `Spells s u`: the text `s` is read as the tree `u` wherever a value may stand, and `SpellsField`
  says the same of a field. Arrays and objects are put together from what spells their parts
  (`Spells.array`, `Spells.object`), with white space between them (`layout`).
* `parse?_compact`, `tree_parse?_pretty`: hence both printers are read back.
-/

namespace SpecHarvest.Json

/-! ## Runs of the reader -/

/-- Reading a text from a state ends with a tree. -/
inductive Scans : Text → State → Tree → Prop
  | done (t : Tree) : Scans [] (.complete t []) t
  | space {c : Char} {s : Text} {σ : State} {t : Tree} : isSpace c = true → Scans s σ t →
    Scans (c :: s) σ t
  | token {c : Char} {s rest : Text} {k : Token} {σ τ : State} {t : Tree} : isSpace c = false →
    token? (c :: s) = some (k, rest) → rest.length ≤ s.length → step? σ k = some τ →
    Scans rest τ t → Scans (c :: s) σ t

theorem Scans.spaces {gap s : Text} {σ : State} {t : Tree} (hg : gap.all isSpace = true)
    (h : Scans s σ t) : Scans (gap ++ s) σ t := by
  induction gap with
  | nil => exact h
  | cons c gap ih =>
    simp only [List.all_cons, Bool.and_eq_true] at hg
    exact .space hg.1 (ih hg.2)

/-- The tokens of a text that is read are cut off and taken one after the other. -/
theorem Scans.exists_tokens {s : Text} {σ : State} {t : Tree} (h : Scans s σ t) :
    ∀ n, s.length ≤ n → ∃ ks, tokens?.go n s = some ks ∧
      ks.foldlM step? σ = some (.complete t []) := by
  induction h with
  | done t =>
    intro n _
    cases n <;> exact ⟨[], rfl, rfl⟩
  | @space c s σ t hc h ih =>
    intro n hn
    cases n with
    | zero => cases hn
    | succ n =>
      obtain ⟨ks, hks, hf⟩ := ih (n + 1) (Nat.le_of_succ_le hn)
      refine ⟨ks, ?_, hf⟩
      rw [← hks, tokens?.go, tokens?.go, List.dropWhile_cons_of_pos hc]
  | @token c s rest k σ τ t hc hk hlen hstep h ih =>
    intro n hn
    cases n with
    | zero => cases hn
    | succ n =>
      rw [List.length_cons] at hn
      obtain ⟨ks, hks, hf⟩ := ih n (by omega)
      refine ⟨k :: ks, ?_, ?_⟩
      · simp [tokens?.go, hc, hk, hks]
      · simp [List.foldlM_cons, hstep, hf]

/-- **A text that is read to its end spells a tree.** -/
theorem Scans.parse? {s : Text} {t : Tree} (h : Scans s (.value []) t) :
    Tree.parse? s = some t := by
  obtain ⟨ks, hks, hf⟩ := h.exists_tokens s.length (Nat.le_refl _)
  simp [Tree.parse?, tokens?, hks, hf]

/-- The first item of an array is read as any other. -/
theorem Scans.item {s : Text} {o : List Frame} {t : Tree}
    (h : Scans s (.value (.array [] :: o)) t) : Scans s (.item o) t := by
  generalize hσ : State.value (.array [] :: o) = σ at h
  induction h with
  | done t => cases hσ
  | space hc h ih => exact .space hc (ih hσ)
  | @token c s rest k σ τ t hc hk hlen hstep h ih =>
    subst hσ
    refine .token hc hk hlen ?_ h
    cases k <;> first | exact hstep | cases hstep

/-! ## Texts that spell a tree -/

/-- A text is read as a tree wherever a value may stand. -/
def Spells (s : Text) (u : Tree) : Prop :=
  ∀ (o : List Frame) (rest : Text) (t : Tree), Stops rest → Scans rest (.complete u o) t →
    Scans (s ++ rest) (.value o) t

theorem Spells.parse? {s : Text} {u : Tree} (h : Spells s u) : Tree.parse? s = some u := by
  have hs := h [] [] u (by simp [Stops]) (.done u)
  rw [List.append_nil] at hs
  exact hs.parse?

theorem spells_null : Spells "null".toList .null :=
  fun _ _ _ _ h => .token (by decide) rfl (Nat.le_add_right _ 3) rfl h

theorem spells_bool (b : Bool) :
    Spells (if b then "true".toList else "false".toList) (.bool b) := by
  intro o rest t _ h
  cases b with
  | true => exact .token (by decide) rfl (Nat.le_add_right _ 3) rfl h
  | false => exact .token (by decide) rfl (Nat.le_add_right _ 4) rfl h

/-- A text is all that a string holds, up to its closing quote. -/
def Content (raw : Text) : Prop :=
  ∀ rest : Text, stringRest? (raw ++ '"' :: rest) = some (raw, rest)

theorem content_escaped (s : Text) : Content (escaped s) := stringRest?_escaped s

theorem Content.token? {raw : Text} (h : Content raw) (rest : Text) :
    Json.token? ('"' :: (raw ++ '"' :: rest)) = some (.string raw, rest) := by
  rw [Json.token?, h rest]
  rfl

theorem spells_string {raw : Text} (h : Content raw) :
    Spells ('"' :: raw ++ ['"']) (.string raw) := by
  intro o rest t _ hs
  have htext : '"' :: raw ++ ['"'] ++ rest = '"' :: (raw ++ '"' :: rest) := by simp
  rw [htext]
  exact .token (by decide) (h.token? rest) (by simp; omega) rfl hs

/-- A numeral starts like no other token. -/
theorem token?_eq_numeral? {c : Char} {s : Text} (h : c.isDigit = true ∨ c = '-') :
    isSpace c = false ∧
      token? (c :: s) = (numeral? (c :: s)).map fun (n, rest) => (.number n, rest) := by
  constructor
  · rcases h with h | rfl
    · cases hc : isSpace c with
      | false => rfl
      | true =>
        simp only [isSpace, Bool.or_eq_true, beq_iff_eq] at hc
        rcases hc with ((rfl | rfl) | rfl) | rfl <;> cases h
    · decide
  · rw [token?]
    all_goals
      intro rest he
      obtain ⟨rfl, -⟩ := List.cons.inj he
      revert h
      decide

/-- The token of a printed integer. -/
theorem exists_token?_render (k : Int) {rest : Text} (hr : Stops rest) : ∃ c s,
    (Number.int k).render = c :: s ∧ isSpace c = false ∧
      token? (c :: (s ++ rest)) = some (.number (numeralOf k), rest) := by
  have hread := numeral?_render k hr
  obtain ⟨c, s, hs, hc⟩ : ∃ c s, (Number.int k).render = c :: s ∧ (c.isDigit = true ∨ c = '-') := by
    obtain ⟨c, ds, hds, -, hc⟩ := exists_digitsOf_eq_cons k.natAbs
    by_cases hk : k < 0
    · exact ⟨'-', _, by rw [Number.render, if_pos hk], .inr rfl⟩
    · exact ⟨c, ds, by rw [Number.render, if_neg hk, hds], .inl hc⟩
  obtain ⟨hspace, htoken⟩ := token?_eq_numeral? (s := s ++ rest) hc
  rw [hs, List.cons_append] at hread
  rw [hread] at htoken
  exact ⟨c, s, hs, hspace, htoken⟩

theorem spells_int (k : Int) : Spells (Number.int k).render (.number (numeralOf k)) := by
  intro o rest t hr h
  obtain ⟨c, s, hs, hspace, htoken⟩ := exists_token?_render k hr
  rw [hs]
  exact .token hspace htoken (by simp) rfl h

/-! ## Arrays and objects -/

/-- Pieces between brackets, each after a gap and separated by commas; without a piece there is no
gap. -/
def layout (opening closing : Char) (gap last : Text) : List Text → Text
  | [] => [opening, closing]
  | x :: xs => opening :: (gap ++ (x ++ (xs.flatMap fun y => ',' :: (gap ++ y)) ++
      (last ++ [closing])))

variable {α : Type} {gap last : Text}

theorem stops_of_mem {c : Char} (h : c ∈ [',', ']', '}', ' ', '\t', '\n', '\r']) (rest : Text) :
    Stops (c :: rest) := by
  intro d hd
  obtain rfl : c = d := Option.some.inj hd
  simp only [List.mem_cons, List.not_mem_nil, or_false] at h
  rcases h with rfl | rfl | rfl | rfl | rfl | rfl | rfl <;> decide

/-- A value within brackets is followed by a comma, by white space or by the closing bracket. -/
theorem stops_tail {f : α → Text} {vs : List α} {c : Char} (hl : last.all isSpace = true)
    (hc : c = ']' ∨ c = '}') (rest : Text) :
    Stops (vs.flatMap (fun v => ',' :: f v) ++ (last ++ c :: rest)) := by
  cases vs with
  | nil =>
    cases last with
    | nil => exact stops_of_mem (by simpa using by tauto) rest
    | cons d last =>
      simp only [List.all_cons, Bool.and_eq_true, isSpace, Bool.or_eq_true, beq_iff_eq,
        or_assoc] at hl
      exact stops_of_mem (by simpa using .inr (.inr (.inr hl.1))) _
  | cons v vs => exact stops_of_mem (by decide) _

/-- The items after the first, and the closing bracket. -/
theorem Scans.items {f : α → Text} {g : α → Tree} {vs : List α} (hg : gap.all isSpace = true)
    (hl : last.all isSpace = true) (h : ∀ v ∈ vs, Spells (f v) (g v)) {u : Tree} {us : List Tree}
    {o : List Frame} {rest : Text} {t : Tree}
    (hs : Scans rest (.complete (.array ((u :: us).reverse ++ vs.map g)) o) t) :
    Scans (vs.flatMap (fun v => ',' :: (gap ++ f v)) ++ (last ++ ']' :: rest))
      (.complete u (.array us :: o)) t := by
  induction vs generalizing u us with
  | nil =>
    rw [List.map_nil, List.append_nil] at hs
    rw [List.flatMap_nil, List.nil_append]
    exact .spaces hl (.token (by decide) rfl (Nat.le_refl _) rfl hs)
  | cons v vs ih =>
    rw [List.flatMap_cons, List.cons_append, List.cons_append, List.append_assoc, List.append_assoc]
    refine .token (by decide) rfl (Nat.le_refl _) rfl (.spaces hg ?_)
    refine h v List.mem_cons_self _ _ _ (stops_tail hl (.inl rfl) rest)
      (ih (fun w hw => h w (List.mem_cons_of_mem _ hw)) ?_)
    rw [List.map_cons] at hs
    simpa using hs

/-- **An array is spelled by its items.** -/
theorem Spells.array {f : α → Text} {g : α → Tree} {vs : List α} (hg : gap.all isSpace = true)
    (hl : last.all isSpace = true) (h : ∀ v ∈ vs, Spells (f v) (g v)) :
    Spells (layout '[' ']' gap last (vs.map f)) (.array (vs.map g)) := by
  intro o rest t _ hs
  cases vs with
  | nil =>
    exact .token (by decide) rfl (Nat.le_refl _) rfl
      (.token (by decide) rfl (Nat.le_refl _) rfl hs)
  | cons v vs =>
    have htext : layout '[' ']' gap last ((v :: vs).map f) ++ rest =
        '[' :: (gap ++ (f v ++ (vs.flatMap (fun v => ',' :: (gap ++ f v)) ++
          (last ++ ']' :: rest)))) := by
      simp [layout, List.flatMap_map]
    have hitems : Scans (vs.flatMap (fun v => ',' :: (gap ++ f v)) ++ (last ++ ']' :: rest))
        (.complete (g v) (.array [] :: o)) t :=
      .items hg hl (fun w hw => h w (List.mem_cons_of_mem _ hw)) hs
    rw [htext]
    refine .token (by decide) rfl (Nat.le_refl _) rfl (.spaces hg (.item ?_))
    exact h v List.mem_cons_self _ _ _ (stops_tail hl (.inl rfl) rest) hitems

/-- White space before a value. -/
theorem Spells.before {s gap : Text} {u : Tree} (hg : gap.all isSpace = true) (h : Spells s u) :
    Spells (gap ++ s) u := by
  intro o rest t hr hs
  rw [List.append_assoc]
  exact .spaces hg (h o rest t hr hs)

/-- A text is read as a field of an object wherever a key may stand. -/
def SpellsField (s k : Text) (u : Tree) : Prop :=
  ∀ (σ : State) (fs : List (Text × Tree)) (o : List Frame) (rest : Text) (t : Tree),
    step? σ (.string k) = some (.colon fs k o) → Stops rest →
    Scans rest (.complete u (.object fs k :: o)) t → Scans (s ++ rest) σ t

/-- A field is spelled by its key and its value, with white space before and after the key. -/
theorem Spells.field {raw before after s : Text} {u : Tree} (hk : Content raw)
    (hb : before.all isSpace = true) (ha : after.all isSpace = true) (h : Spells s u) :
    SpellsField (before ++ ('"' :: raw ++ '"' :: (after ++ ':' :: s))) raw u := by
  intro σ fs o rest t hσ hr hs
  have htext : before ++ ('"' :: raw ++ '"' :: (after ++ ':' :: s)) ++ rest =
      before ++ '"' :: (raw ++ '"' :: (after ++ ':' :: (s ++ rest))) := by simp
  rw [htext]
  refine .spaces hb (.token (by decide) (hk.token? _) (by simp; omega) hσ (.spaces ha ?_))
  exact .token (by decide) rfl (Nat.le_refl _) rfl (h _ _ _ hr hs)

/-- The fields after the first, and the closing bracket. -/
theorem Scans.fields {f key : α → Text} {g : α → Tree} {es : List α}
    (hg : gap.all isSpace = true) (hl : last.all isSpace = true)
    (h : ∀ e ∈ es, SpellsField (f e) (key e) (g e)) {k : Text} {u : Tree}
    {fs : List (Text × Tree)} {o : List Frame} {rest : Text} {t : Tree}
    (hs : Scans rest (.complete (.object (((k, u) :: fs).reverse ++
      es.map fun e => (key e, g e))) o) t) :
    Scans (es.flatMap (fun e => ',' :: (gap ++ f e)) ++ (last ++ '}' :: rest))
      (.complete u (.object fs k :: o)) t := by
  induction es generalizing k u fs with
  | nil =>
    rw [List.map_nil, List.append_nil] at hs
    rw [List.flatMap_nil, List.nil_append]
    exact .spaces hl (.token (by decide) rfl (Nat.le_refl _) rfl hs)
  | cons e es ih =>
    rw [List.flatMap_cons, List.cons_append, List.cons_append, List.append_assoc, List.append_assoc]
    refine .token (by decide) rfl (Nat.le_refl _) rfl (.spaces hg ?_)
    refine h e List.mem_cons_self _ _ _ _ _ rfl (stops_tail hl (.inr rfl) rest)
      (ih (fun d hd => h d (List.mem_cons_of_mem _ hd)) ?_)
    rw [List.map_cons] at hs
    simpa using hs

/-- **An object is spelled by its fields.** -/
theorem Spells.object {f key : α → Text} {g : α → Tree} {es : List α}
    (hg : gap.all isSpace = true) (hl : last.all isSpace = true)
    (h : ∀ e ∈ es, SpellsField (f e) (key e) (g e)) :
    Spells (layout '{' '}' gap last (es.map f)) (.object (es.map fun e => (key e, g e))) := by
  intro o rest t _ hs
  cases es with
  | nil =>
    exact .token (by decide) rfl (Nat.le_refl _) rfl
      (.token (by decide) rfl (Nat.le_refl _) rfl hs)
  | cons e es =>
    have htext : layout '{' '}' gap last ((e :: es).map f) ++ rest =
        '{' :: (gap ++ (f e ++ (es.flatMap (fun e => ',' :: (gap ++ f e)) ++
          (last ++ '}' :: rest)))) := by
      simp [layout, List.flatMap_map]
    have hfields : Scans (es.flatMap (fun e => ',' :: (gap ++ f e)) ++ (last ++ '}' :: rest))
        (.complete (g e) (.object [] (key e) :: o)) t :=
      .fields hg hl (fun d hd => h d (List.mem_cons_of_mem _ hd)) hs
    rw [htext]
    refine .token (by decide) rfl (Nat.le_refl _) rfl (.spaces hg ?_)
    exact h e List.mem_cons_self _ _ _ _ _ rfl (stops_tail hl (.inr rfl) rest) hfields

/-! ## The two printers -/

/-- One field of an object as it is printed. -/
def fieldText (sep : Text) (f : α → Text) (e : Text × α) : Text :=
  renderString e.1 ++ ':' :: (sep ++ f e.2)

theorem spellsField_fieldText {sep : Text} {f : α → Text} {e : Text × α} {u : Tree}
    (hp : sep.all isSpace = true) (h : Spells (f e.2) u) :
    SpellsField (fieldText sep f e) (escaped e.1) u := by
  have htext : fieldText sep f e =
      [] ++ ('"' :: escaped e.1 ++ '"' :: ([] ++ ':' :: (sep ++ f e.2))) := by
    rw [fieldText, renderString_append]
    rfl
  rw [htext]
  exact Spells.field (content_escaped e.1) rfl rfl (h.before hp)

namespace Value

theorem compactItems_eq (vs : List Value) :
    compactItems vs = vs.flatMap (fun v => ',' :: v.compact) ++ [']'] := by
  induction vs with
  | nil => rfl
  | cons v vs ih => simp [compactItems, ih]

theorem compactFields_eq (fs : List (Text × Value)) :
    compactFields fs = fs.flatMap (fun e => ',' :: fieldText [] compact e) ++ ['}'] := by
  induction fs with
  | nil => rfl
  | cons e fs ih => simp [compactFields, ih, fieldText]

theorem prettyItems_eq (d : Nat) (vs : List Value) : prettyItems d vs =
    vs.flatMap (fun v => ',' :: (newLine (d + 1) ++ prettyAt (d + 1) v)) ++
      (newLine d ++ [']']) := by
  induction vs with
  | nil => rfl
  | cons v vs ih => simp [prettyItems, ih]

theorem prettyFields_eq (d : Nat) (fs : List (Text × Value)) : prettyFields d fs =
    fs.flatMap (fun e => ',' :: (newLine (d + 1) ++ fieldText [' '] (prettyAt (d + 1)) e)) ++
      (newLine d ++ ['}']) := by
  induction fs with
  | nil => rfl
  | cons e fs ih => simp [prettyFields, ih, fieldText]

theorem compact_array (vs : List Value) :
    (array vs).compact = layout '[' ']' [] [] (vs.map compact) := by
  cases vs with
  | nil => rfl
  | cons v vs => simp [compact, compactItems_eq, layout, List.flatMap_map]

theorem compact_object (fs : List (Text × Value)) :
    (object fs).compact = layout '{' '}' [] [] (fs.map (fieldText [] compact)) := by
  cases fs with
  | nil => rfl
  | cons e fs => simp [compact, compactFields_eq, layout, List.flatMap_map, fieldText]

theorem prettyAt_array (d : Nat) (vs : List Value) : prettyAt d (array vs) =
    layout '[' ']' (newLine (d + 1)) (newLine d) (vs.map (prettyAt (d + 1))) := by
  cases vs with
  | nil => rfl
  | cons v vs => simp [prettyAt, prettyItems_eq, layout, List.flatMap_map]

theorem prettyAt_object (d : Nat) (fs : List (Text × Value)) : prettyAt d (object fs) =
    layout '{' '}' (newLine (d + 1)) (newLine d)
      (fs.map (fieldText [' '] (prettyAt (d + 1)))) := by
  cases fs with
  | nil => rfl
  | cons e fs => simp [prettyAt, prettyFields_eq, layout, List.flatMap_map, fieldText]

theorem spells_compact {q : List Text → Prop} {v : Value} (h : v.All (·.isInteger = true) q) :
    Spells v.compact v.tree := by
  induction h with
  | null => exact spells_null
  | bool b => exact spells_bool b
  | number hn =>
    obtain ⟨k, rfl, -⟩ := Number.exists_of_isInteger hn
    rw [tree, Number.numeral_int]
    exact spells_int k
  | string s => exact spells_string (content_escaped s)
  | array _ ih =>
    rw [compact_array, tree, itemTrees_eq_map]
    exact .array rfl rfl ih
  | object _ _ ih =>
    rw [compact_object, tree, fieldTrees_eq_map]
    exact .object rfl rfl fun f hf => spellsField_fieldText rfl (ih f hf)

theorem all_newLine (d : Nat) : (newLine d).all isSpace = true := by
  simp [newLine, isSpace]

theorem spells_prettyAt {v : Value} (h : v.Regular) (d : Nat) : Spells (prettyAt d v) v.tree := by
  induction h generalizing d with
  | null => exact spells_null
  | bool b => exact spells_bool b
  | number hn =>
    obtain ⟨k, rfl, -⟩ := Number.exists_of_isInteger hn
    rw [tree, Number.numeral_int]
    exact spells_int k
  | string s => exact spells_string (content_escaped s)
  | array _ ih =>
    rw [prettyAt_array, tree, itemTrees_eq_map]
    exact .array (all_newLine _) (all_newLine d) fun v hv => ih v hv (d + 1)
  | object _ _ ih =>
    rw [prettyAt_object, tree, fieldTrees_eq_map]
    exact .object (all_newLine _) (all_newLine d) fun f hf =>
      spellsField_fieldText rfl (ih f hf (d + 1))

/-- **The compact text of a value is read back** with its fields merged, if it is not nested too
deep. -/
theorem parse?_compact_eq_merged {q : List Text → Prop} {v : Value}
    (h : v.All (·.isInteger = true) q) :
    parse? v.compact = if v.depth ≤ maxDepth then some v.merged else none := by
  rw [parse?, (spells_compact h).parse?, Option.bind_some, ofTree?_tree h]

/-- **The compact text of a value is read back**, if it is not nested too deep. -/
theorem parse?_compact {v : Value} (h : v.Regular) :
    parse? v.compact = if v.depth ≤ maxDepth then some v else none := by
  rw [parse?_compact_eq_merged h, merged_of_nodup h]

/-- **The text of a value with its lines spells the tree of the value.** -/
theorem tree_parse?_pretty {v : Value} (h : v.Regular) : Tree.parse? v.pretty = some v.tree :=
  (spells_prettyAt h 0).parse?

end Value

end SpecHarvest.Json
