import Mathlib.Tactic.Choose
import SpecHarvest.Proofs.Json.Compare

/-!
# The texts of a JSON value

JSON leaves a writer free: any white space may stand around the parts of a value, and a string may
hold escapes where it need not.

* `Spelling raw s`: `raw` may stand between the quotes of a string that denotes `s`.
* `Renders key string t v`: the text `t` is one of those of the value `v`. How keys and strings are
  written is left to two relations, so that laxer notations are renderings, too.
* `Renders.trim`: white space at the ends of a rendering does not matter.
* `Value.parse?_of_renders`: every rendering in JSON proper is read as the value.
* `Value.renders_compact`: the compact text is one of them.
-/

namespace SpecHarvest.Json

open Text

/-! ## Strings -/

/-- What may stand between the quotes of a string, and the text that it denotes. -/
inductive Spelling : Text → Text → Prop
  | nil : Spelling [] []
  | plain {c : Char} {raw s : Text} : c ≠ '"' → c ≠ '\\' → 0x20 ≤ c.toNat → Spelling raw s →
    Spelling (c :: raw) (c :: s)
  | short {e c : Char} {raw s : Text} : simpleEscape? e = some c → Spelling raw s →
    Spelling ('\\' :: e :: raw) (c :: s)
  /-- The number of a character, in hexadecimal. -/
  | code {a b c d x : Char} {raw s : Text} : hexQuad? a b c d = some x.toNat → Spelling raw s →
    Spelling ('\\' :: 'u' :: a :: b :: c :: d :: raw) (x :: s)
  /-- A character beyond U+FFFF, as its two surrogates. -/
  | pair {a b c d a' b' c' d' x : Char} {n m : Nat} {raw s : Text} : hexQuad? a b c d = some n →
    hexQuad? a' b' c' d' = some m → 0xD800 ≤ n ∧ n ≤ 0xDBFF → 0xDC00 ≤ m ∧ m ≤ 0xDFFF →
    x.toNat = 0x10000 + (n - 0xD800) * 0x400 + (m - 0xDC00) → Spelling raw s →
    Spelling ('\\' :: 'u' :: a :: b :: c :: d :: '\\' :: 'u' :: a' :: b' :: c' :: d' :: raw)
      (x :: s)

theorem ne_of_simpleEscape? {e c : Char} (h : simpleEscape? e = some c) : e ≠ 'u' := by
  rintro rfl
  simp [simpleEscape?] at h

/-- A character has no number between those of the surrogates. -/
theorem not_surrogate (x : Char) :
    ¬(0xDC00 ≤ x.toNat ∧ x.toNat ≤ 0xDFFF) ∧ ¬(0xD800 ≤ x.toNat ∧ x.toNat ≤ 0xDBFF) := by
  have hx : x.toNat < 0xD800 ∨ 0xDFFF < x.toNat ∧ x.toNat < 0x110000 := x.valid
  omega

theorem Spelling.content {raw s : Text} (h : Spelling raw s) : Content raw := by
  intro rest
  induction h with
  | nil => simp [stringRest?]
  | plain hq hb hc _ ih =>
    have hc' := Nat.not_lt.2 hc
    simp [stringRest?, hq, hb, hc', ih]
  | short he _ ih => simp [stringRest?, ne_of_simpleEscape? he, he, ih]
  | code hx _ ih => simp [stringRest?, hx, ih]
  | pair hn hm _ _ _ _ ih => simp [stringRest?, hn, hm, ih]

/-- **A string denotes the text that it spells.** -/
theorem Spelling.decodeString? {raw s : Text} (h : Spelling raw s) :
    Json.decodeString? raw = some s := by
  induction h with
  | nil => simp [Json.decodeString?]
  | plain hq hb hc _ ih => simp [Json.decodeString?, hb, ih]
  | short he _ ih => simp [Json.decodeString?, ne_of_simpleEscape? he, he, ih]
  | @code a b c d x raw s hx _ ih =>
    obtain ⟨hlow, hhigh⟩ := not_surrogate x
    simp [Json.decodeString?, hx, hlow, hhigh, ih]
  | @pair a b c d a' b' c' d' x n m raw s hn hm hhigh hlow hx _ ih =>
    have hn' : ¬(0xDC00 ≤ n ∧ n ≤ 0xDFFF) := by omega
    simp [Json.decodeString?, hn, hm, hn', hhigh, hlow, ← hx, ih]

theorem spelling_escaped (s : Text) : Spelling (escaped s) s := by
  induction s with
  | nil => exact .nil
  | cons c s ih =>
    rw [escaped_cons]
    rcases stringChar_cases c with ⟨e, he, -, hc⟩ | ⟨hlt, he⟩ | ⟨he, hq, hb, hc⟩
    · rw [he]
      exact .short hc ih
    · rw [he]
      exact .code (hexQuad?_hexDigit (by omega)) ih
    · rw [he]
      exact .plain hq hb (Nat.not_lt.1 hc) ih

/-- A text without quotes, backslashes and control characters spells itself. -/
theorem spelling_of_forall {s : Text} (h : ∀ c ∈ s, c ≠ '"' ∧ c ≠ '\\' ∧ 0x20 ≤ c.toNat) :
    Spelling s s := by
  induction s with
  | nil => exact .nil
  | cons c s ih =>
    rw [List.forall_mem_cons] at h
    exact .plain h.1.1 h.1.2.1 h.1.2.2 (ih h.2)

/-- The strings of JSON. -/
def JsonString (t s : Text) : Prop := ∃ raw, t = '"' :: raw ++ ['"'] ∧ Spelling raw s

theorem jsonString_renderString (s : Text) : JsonString (renderString s) s :=
  ⟨escaped s, rfl, spelling_escaped s⟩

/-! ## Values -/

/-- A field of an object with its text: white space, its key, white space and a colon, its value. -/
structure WrittenField where
  before : Text
  keyText : Text
  after : Text
  text : Text
  key : Text
  value : Value

namespace WrittenField

/-- The whole text of a field. -/
def full (f : WrittenField) : Text := f.before ++ (f.keyText ++ (f.after ++ ':' :: f.text))

/-- Only white space stands around the key, which is written as a relation has it. -/
structure IsKeyed (key : Text → Text → Prop) (f : WrittenField) : Prop where
  before : f.before.all isSpace = true
  after : f.after.all isSpace = true
  key : key f.keyText f.key

end WrittenField

/-- The texts of a value, with its keys and its strings written as two relations have it. Numbers
are integers, and white space may stand around every value and every key. -/
inductive Renders (key string : Text → Text → Prop) : Text → Value → Prop
  | null : Renders key string "null".toList .null
  | bool (b : Bool) : Renders key string (if b then "true".toList else "false".toList) (.bool b)
  | int (k : Int) : Renders key string (Number.int k).render (.number (.int k))
  | string {t s : Text} : string t s → Renders key string t (.string s)
  | emptyArray {gap : Text} : gap.all isSpace = true →
    Renders key string ('[' :: (gap ++ [']'])) (.array [])
  | array {items : List (Text × Value)} : (∀ i ∈ items, Renders key string i.1 i.2) →
    Renders key string (layout '[' ']' [] [] (items.map (·.1))) (.array (items.map (·.2)))
  | emptyObject {gap : Text} : gap.all isSpace = true →
    Renders key string ('{' :: (gap ++ ['}'])) (.object [])
  | object {fields : List WrittenField} : (∀ f ∈ fields, f.IsKeyed key) →
    (∀ f ∈ fields, Renders key string f.text f.value) →
    Renders key string (layout '{' '}' [] [] (fields.map (·.full)))
      (.object (fields.map fun f => (f.key, f.value)))
  | spaceBefore {c : Char} {t : Text} {v : Value} : isSpace c = true → Renders key string t v →
    Renders key string (c :: t) v
  | spaceAfter {c : Char} {t : Text} {v : Value} : isSpace c = true → Renders key string t v →
    Renders key string (t ++ [c]) v

variable {key key' string string' : Text → Text → Prop} {t : Text} {v : Value}

theorem Renders.mono (h : Renders key string t v) (hk : ∀ t s, key t s → key' t s)
    (hs : ∀ t s, string t s → string' t s) : Renders key' string' t v := by
  induction h with
  | null => exact .null
  | bool b => exact .bool b
  | int k => exact .int k
  | string h => exact .string (hs _ _ h)
  | emptyArray hg => exact .emptyArray hg
  | array _ ih => exact .array ih
  | emptyObject hg => exact .emptyObject hg
  | object hf _ ih =>
    exact .object (fun f h => ⟨(hf f h).before, (hf f h).after, hk _ _ (hf f h).key⟩) ih
  | spaceBefore hc _ ih => exact .spaceBefore hc ih
  | spaceAfter hc _ ih => exact .spaceAfter hc ih

section

variable {α : Type} {xs : List α}

/-- An array whose items are given by functions. -/
theorem Renders.array_map {text : α → Text} {value : α → Value}
    (h : ∀ x ∈ xs, Renders key string (text x) (value x)) :
    Renders key string (layout '[' ']' [] [] (xs.map text)) (.array (xs.map value)) := by
  have hitems : ∀ i ∈ xs.map fun x => (text x, value x), Renders key string i.1 i.2 :=
    List.forall_mem_map.2 h
  have harray := Renders.array hitems
  rwa [List.map_map, List.map_map] at harray

/-- An object whose fields are given by a function. -/
theorem Renders.object_map {field : α → WrittenField} (hf : ∀ x ∈ xs, (field x).IsKeyed key)
    (h : ∀ x ∈ xs, Renders key string (field x).text (field x).value) :
    Renders key string (layout '{' '}' [] [] (xs.map fun x => (field x).full))
      (.object (xs.map fun x => ((field x).key, (field x).value))) := by
  have hobject := Renders.object (List.forall_mem_map.2 hf) (List.forall_mem_map.2 h)
  rwa [List.map_map, List.map_map] at hobject

end

/-! ## White space at the ends -/

theorem isBlank_of_isSpace {c : Char} (h : isSpace c = true) : isBlank c = true := by
  simp only [isSpace, Bool.or_eq_true, beq_iff_eq] at h
  rcases h with ((rfl | rfl) | rfl) | rfl <;> decide

/-- **A rendering without the white space at its ends** is a rendering, and is not empty. -/
theorem Renders.trim (h : Renders key string t v)
    (hs : ∀ t s, string t s → Text.trim t = t ∧ t ≠ []) :
    Renders key string (Text.trim t) v ∧ Text.trim t ≠ [] := by
  induction h with
  | null => exact ⟨.null, by decide⟩
  | bool b =>
    have htrim : Text.trim (if b then "true".toList else "false".toList) =
        if b then "true".toList else "false".toList := by cases b <;> decide
    rw [htrim]
    exact ⟨.bool b, by cases b <;> decide⟩
  | int k =>
    rw [Number.trim_render_int]
    exact ⟨.int k, Number.render_ne_nil _⟩
  | string h =>
    rw [(hs _ _ h).1]
    exact ⟨.string h, (hs _ _ h).2⟩
  | @emptyArray gap hg =>
    rw [trim_cons_append_singleton (by decide) (by decide)]
    exact ⟨.emptyArray hg, List.cons_ne_nil _ _⟩
  | array h ih =>
    rw [trim_layout (by decide) (by decide)]
    exact ⟨.array h, layout_ne_nil _ _ _ _ _⟩
  | emptyObject hg =>
    rw [trim_cons_append_singleton (by decide) (by decide)]
    exact ⟨.emptyObject hg, List.cons_ne_nil _ _⟩
  | object hf h ih =>
    rw [trim_layout (by decide) (by decide)]
    exact ⟨.object hf h, layout_ne_nil _ _ _ _ _⟩
  | spaceBefore hc _ ih =>
    rw [trim_cons_of_isBlank (isBlank_of_isSpace hc)]
    exact ih
  | spaceAfter hc _ ih =>
    rw [trim_append_singleton_of_isBlank (isBlank_of_isSpace hc)]
    exact ih

theorem JsonString.trim {t s : Text} (h : JsonString t s) : Text.trim t = t ∧ t ≠ [] := by
  obtain ⟨raw, rfl, -⟩ := h
  exact ⟨trim_cons_append_singleton (by decide) (by decide) raw, List.cons_ne_nil _ _⟩

/-! ## Reading a rendering -/

theorem stops_of_isSpace {c : Char} (h : isSpace c = true) (rest : Text) : Stops (c :: rest) := by
  refine stops_of_mem ?_ rest
  simp only [isSpace, Bool.or_eq_true, beq_iff_eq, or_assoc] at h
  simpa using .inr (.inr (.inr h))

theorem Spells.space {c : Char} {s : Text} {u : Tree} (hc : isSpace c = true) (h : Spells s u) :
    Spells (c :: s) u :=
  fun o rest t hr hs => .space hc (h o rest t hr hs)

theorem Spells.after {c : Char} {s : Text} {u : Tree} (hc : isSpace c = true) (h : Spells s u) :
    Spells (s ++ [c]) u := by
  intro o rest t _ hs
  rw [List.append_assoc]
  exact h o (c :: rest) t (stops_of_isSpace hc rest) (.space hc hs)

theorem WrittenField.IsKeyed.spellsField {f : WrittenField} {u : Tree}
    (hf : f.IsKeyed JsonString) (h : Spells f.text u) :
    ∃ raw, SpellsField f.full raw u ∧ decodeString? raw = some f.key := by
  obtain ⟨raw, hraw, hspell⟩ := hf.key
  refine ⟨raw, ?_, hspell.decodeString?⟩
  have hfull : f.full = f.before ++ ('"' :: raw ++ '"' :: (f.after ++ ':' :: f.text)) := by
    simp [WrittenField.full, hraw]
  rw [hfull]
  exact Spells.field hspell.content hf.before hf.after h

theorem spells_emptyArray {gap : Text} (hg : gap.all isSpace = true) :
    Spells ('[' :: (gap ++ [']'])) (.array []) := by
  intro o rest t _ hs
  rw [List.cons_append, List.append_assoc]
  exact .token (by decide) rfl (Nat.le_refl _) rfl
    (.spaces hg (.token (by decide) rfl (Nat.le_refl _) rfl hs))

theorem spells_emptyObject {gap : Text} (hg : gap.all isSpace = true) :
    Spells ('{' :: (gap ++ ['}'])) (.object []) := by
  intro o rest t _ hs
  rw [List.cons_append, List.append_assoc]
  exact .token (by decide) rfl (Nat.le_refl _) rfl
    (.spaces hg (.token (by decide) rfl (Nat.le_refl _) rfl hs))

namespace Value

/-- A tree denotes a value as far as the value may be nested. -/
def Denotes (u : Tree) (v : Value) : Prop := ∀ d, v.depth ≤ d → ofTree? d u = some v

section

variable {α : Type} {tree : α → Tree} {value : α → Value}

theorem denotes_array {items : List α} (h : ∀ i ∈ items, Denotes (tree i) (value i)) :
    Denotes (.array (items.map tree)) (.array (items.map value)) := by
  intro d hd
  cases d with
  | zero => simp [depth] at hd
  | succ d =>
    rw [depth, Nat.add_le_add_iff_right, itemsDepth_le_iff, List.forall_mem_map] at hd
    rw [ofTree?, mapM_map_of_some fun i hi => h i hi d (hd i hi), Option.map_some]

theorem denotes_object {fields : List α} {raw key : α → Text} (hk : (fields.map key).Nodup)
    (hraw : ∀ f ∈ fields, decodeString? (raw f) = some (key f))
    (h : ∀ f ∈ fields, Denotes (tree f) (value f)) :
    Denotes (.object (fields.map fun f => (raw f, tree f)))
      (.object (fields.map fun f => (key f, value f))) := by
  intro d hd
  cases d with
  | zero => simp [depth] at hd
  | succ d =>
    rw [depth, Nat.add_le_add_iff_right, fieldsDepth_le_iff, List.forall_mem_map] at hd
    let read : Text × Tree → Option (Text × Value) :=
      fun e => do return (← decodeString? e.1, ← ofTree? d e.2)
    have hread : ∀ f ∈ fields, read (raw f, tree f) = some (key f, value f) := by
      intro f hf
      simp only [read, hraw f hf, h f hf d (hd f hf)]
      rfl
    have hnodup : ((fields.map fun f => (key f, value f)).map (·.1)).Nodup := by
      rwa [List.map_map]
    have hm := mapM_map_of_some hread
    rw [ofTree?, hm]
    simp [Assoc.ofList_of_nodup hnodup]

end

/-- What a rendering spells is a tree that denotes the value. -/
theorem exists_spells (h : Renders JsonString JsonString t v) (hv : v.Regular) :
    ∃ u, Spells t u ∧ Denotes u v := by
  have : Nonempty Tree := ⟨.null⟩
  induction h with
  | null => exact ⟨.null, spells_null, fun d _ => by cases d <;> rfl⟩
  | bool b => exact ⟨.bool b, spells_bool b, fun d _ => by cases d <;> rfl⟩
  | int k =>
    have hk : Fits k := by
      cases hv with
      | number hk => exact of_decide_eq_true hk
    refine ⟨.number (numeralOf k), spells_int k, fun d _ => ?_⟩
    cases d <;> simp [ofTree?, value?_numeralOf hk]
  | string h =>
    obtain ⟨raw, rfl, hspell⟩ := h
    refine ⟨.string raw, spells_string hspell.content, fun d _ => ?_⟩
    cases d <;> simp [ofTree?, hspell.decodeString?]
  | emptyArray hg =>
    refine ⟨.array [], spells_emptyArray hg, fun d hd => ?_⟩
    cases d with
    | zero => cases hd
    | succ d => rfl
  | @array items _ ih =>
    have hitems : ∀ i ∈ items, i.2.Regular := by
      cases hv with
      | array h => exact fun i hi => h i.2 (List.mem_map_of_mem hi)
    choose! tree hspells hdenotes using fun i hi => ih i hi (hitems i hi)
    exact ⟨.array (items.map tree), .array rfl rfl hspells, denotes_array hdenotes⟩
  | emptyObject hg =>
    refine ⟨.object [], spells_emptyObject hg, fun d hd => ?_⟩
    cases d with
    | zero => cases hd
    | succ d => rfl
  | @object fields hf _ ih =>
    obtain ⟨hkeys, hfields⟩ : (fields.map (·.key)).Nodup ∧ ∀ f ∈ fields, f.value.Regular := by
      cases hv with
      | object hk h =>
        rw [List.map_map] at hk
        exact ⟨hk, fun f hf => h (f.key, f.value) (List.mem_map.2 ⟨f, hf, rfl⟩)⟩
    choose! tree hspells hdenotes using fun f hf => ih f hf (hfields f hf)
    choose! raw hfield hraw using fun f h => (hf f h).spellsField (hspells f h)
    exact ⟨.object (fields.map fun f => (raw f, tree f)), .object rfl rfl hfield,
      denotes_object hkeys hraw hdenotes⟩
  | spaceBefore hc _ ih =>
    obtain ⟨u, hu, hdenotes⟩ := ih hv
    exact ⟨u, hu.space hc, hdenotes⟩
  | spaceAfter hc _ ih =>
    obtain ⟨u, hu, hdenotes⟩ := ih hv
    exact ⟨u, hu.after hc, hdenotes⟩

/-- **Every JSON text of a value is read as the value**, if it is not nested too deep. -/
theorem parse?_of_renders (h : Renders JsonString JsonString t v) (hv : v.Regular)
    (hd : v.depth ≤ maxDepth) : parse? t = some v := by
  obtain ⟨u, hu, hdenotes⟩ := exists_spells h hv
  rw [parse?, hu.parse?, Option.bind_some, hdenotes maxDepth hd]

/-- The compact text is one of them. -/
theorem renders_compact (hv : v.Regular) : Renders JsonString JsonString v.compact v := by
  induction hv with
  | null => exact .null
  | bool b => exact .bool b
  | number hn =>
    obtain ⟨k, rfl, -⟩ := Number.exists_of_isInteger hn
    exact .int k
  | string s => exact .string (jsonString_renderString s)
  | array _ ih =>
    have h := Renders.array_map ih
    rwa [List.map_id', ← compact_array] at h
  | @object fields _ _ ih =>
    let written : Text × Value → WrittenField :=
      fun f => ⟨[], renderString f.1, [], f.2.compact, f.1, f.2⟩
    have hkeyed : ∀ f ∈ fields, (written f).IsKeyed JsonString :=
      fun f _ => ⟨rfl, rfl, jsonString_renderString f.1⟩
    have htexts : fieldText [] compact = fun f => (written f).full := rfl
    have h := Renders.object_map hkeyed ih
    rwa [← htexts, ← compact_object, List.map_id'] at h

end Value

end SpecHarvest.Json
