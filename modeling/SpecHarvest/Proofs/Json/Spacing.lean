import SpecHarvest.Proofs.Json.Compare
import SpecHarvest.Proofs.Text.Collapse

/-!
# Compact texts with their white space tightened

The compact text of a value has white space in its strings only, and there only what no escape
stands for: a line break is escaped, a space or a no-break space is not.

* `singleSpaces s`: the string `s` with every run of such white space made one space.
* `Value.strings v`: the strings and keys of a value; `Value.mapStrings f v`: the value with `f`
  applied to each.
* `Value.tighten_compact`: the compact text with every run of white space made one space is that of
  the value with single spaces in its strings.
* `Value.compact_spaced_eq_iff`: read and printed, it is the compact text of the value itself just
  if the value has single spaces in its strings already. Else it is another value, which may even
  have fewer fields, as keys may coincide.
-/

namespace SpecHarvest.Json

open Text

/-! ## White space in a string -/

/-- White space that is printed as it is. -/
def isShownBlank (c : Char) : Bool := isBlank c && decide (0x20 ≤ c.toNat)

/-- Every run of shown white space made one space. The flag says that such white space is just
passed. -/
def singleSpacesFrom : (passed : Bool) → Text → Text
  | _, [] => []
  | p, c :: s =>
    if isShownBlank c then
      if p then singleSpacesFrom true s else ' ' :: singleSpacesFrom true s
    else c :: singleSpacesFrom false s

/-- Every run of shown white space made one space. -/
def singleSpaces (s : Text) : Text := singleSpacesFrom false s

theorem singleSpaces_singleSpaces (s : Text) : singleSpaces (singleSpaces s) = singleSpaces s := by
  have both : ∀ p, singleSpacesFrom p (singleSpacesFrom p s) = singleSpacesFrom p s := by
    have hspace : isShownBlank ' ' = true := by decide
    induction s with
    | nil => exact fun _ => rfl
    | cons c s ih =>
      intro p
      cases hc : isShownBlank c with
      | true => cases p <;> simp [singleSpacesFrom, hc, hspace, ih true]
      | false => simp [singleSpacesFrom, hc, ih false]
  exact both false

theorem isBlank_hexDigit {n : Nat} (h : n < 16) : isBlank (hexDigit n) = false := by
  revert n
  decide

theorem stringChar_of_isShownBlank {c : Char} (h : isShownBlank c = true) : stringChar c = [c] := by
  have hc := h
  simp only [isShownBlank, Bool.and_eq_true, decide_eq_true_eq] at hc
  rcases stringChar_cases c with ⟨e, -, -, he⟩ | ⟨hlow, -⟩ | ⟨hs, -⟩
  · -- no character with a short escape is shown white space
    have hnone : ∀ d, some d = simpleEscape? e → isShownBlank d = false := by
      unfold simpleEscape?
      intro d
      repeat' split
      all_goals rintro ⟨⟩ <;> decide
    rw [hnone c he.symm] at h
    cases h
  · omega
  · exact hs

theorem isBlank_of_mem_stringChar {c : Char} (h : isShownBlank c = false) :
    ∀ d ∈ stringChar c, isBlank d = false := by
  rcases stringChar_cases c with ⟨e, hs, -, he⟩ | ⟨hlow, hs⟩ | ⟨hs, -, -, hc⟩ <;> rw [hs]
  · have hblank : isBlank e = false := by
      cases hb : isBlank e with
      | false => rfl
      | true =>
        have hne : ∀ d, isBlank d = false → e ≠ d := by
          rintro d hd rfl
          rw [hd] at hb
          cases hb
        simp [simpleEscape?, hne '"' (by decide), hne '\\' (by decide), hne '/' (by decide),
          hne 'b' (by decide), hne 'f' (by decide), hne 'n' (by decide), hne 'r' (by decide),
          hne 't' (by decide)] at he
    simpa [hblank] using (by decide : isBlank '\\' = false)
  · have hhigh := isBlank_hexDigit (show c.toNat / 16 < 16 by omega)
    have hmod := isBlank_hexDigit (Nat.mod_lt c.toNat (show 0 < 16 by decide))
    simp only [List.forall_mem_cons]
    exact ⟨by decide, by decide, by decide, by decide, hhigh, hmod, by simp⟩
  · have hge : 0x20 ≤ c.toNat := Nat.le_of_not_lt hc
    simpa [isShownBlank, hge] using h

theorem stringChar_ne_nil (c : Char) : stringChar c ≠ [] := by
  rcases stringChar_cases c with ⟨e, hs, -⟩ | ⟨-, hs⟩ | ⟨hs, -⟩ <;> rw [hs] <;>
    exact List.cons_ne_nil _ _

/-- **What a string shows, tightened**, is what the string with single spaces shows. -/
theorem tighten_escaped (s : Text) : tighten (escaped s) = escaped (singleSpaces s) := by
  have both : ∀ p, tightenFrom p (escaped s) = escaped (singleSpacesFrom p s) := by
    induction s with
    | nil => exact fun _ => rfl
    | cons c s ih =>
      intro p
      cases hc : isShownBlank c with
      | true =>
        have hb : isBlank c = true := (Bool.and_eq_true_iff.1 hc).1
        have hspace : stringChar ' ' = [' '] := stringChar_of_isShownBlank (by decide)
        rw [escaped_cons, stringChar_of_isShownBlank hc]
        cases p <;> simp [tightenFrom, singleSpacesFrom, hb, hc, escaped_cons, hspace, ih true]
      | false =>
        have hs : singleSpacesFrom p (c :: s) = c :: singleSpaces s := by
          simp [singleSpacesFrom, singleSpaces, hc]
        rw [escaped_cons, tightenFrom_append_of_forall (stringChar_ne_nil c)
          (isBlank_of_mem_stringChar hc), hs, escaped_cons, tighten, ih false, singleSpaces]
  exact both false

theorem tightenFrom_renderString (p : Bool) (s y : Text) :
    tightenFrom p (renderString s ++ y) = renderString (singleSpaces s) ++ tighten y := by
  have hq : isBlank '"' = false := by decide
  have hfront := tightenFrom_append_cons hq p [] (escaped s ++ '"' :: y)
  have hback := tightenFrom_append_cons hq false (escaped s) y
  rw [List.nil_append, show tightenFrom p [] = [] from rfl, List.nil_append] at hfront
  rw [renderString_append, renderString_append, hfront, tighten, hback, ← tighten, tighten_escaped]

/-! ## Arrays and objects -/

theorem tightenFrom_items {α : Type} {f g : α → Text} {closing : Char}
    (hc : isBlank closing = false) {xs : List α} (h : ∀ x ∈ xs, tighten (f x) = g x) (p : Bool)
    (s : Text) : tightenFrom p (s ++ (xs.flatMap (fun x => ',' :: f x) ++ [closing])) =
      tightenFrom p s ++ (xs.flatMap (fun x => ',' :: g x) ++ [closing]) := by
  induction xs generalizing p s with
  | nil => exact tightenFrom_append_cons hc p s []
  | cons x xs ih =>
    rw [List.forall_mem_cons] at h
    have hcomma : isBlank ',' = false := by decide
    rw [List.flatMap_cons, List.flatMap_cons, List.append_assoc, List.cons_append,
      tightenFrom_append_cons hcomma, tighten, ih h.2 false (f x), ← tighten, h.1,
      List.append_assoc, List.cons_append]

/-- Brackets and what stands between them are tightened one by one. -/
theorem tighten_layout {α : Type} {f g : α → Text} {opening closing : Char}
    (ho : isBlank opening = false) (hc : isBlank closing = false) {xs : List α}
    (h : ∀ x ∈ xs, tighten (f x) = g x) :
    tighten (layout opening closing [] [] (xs.map f)) =
      layout opening closing [] [] (xs.map g) := by
  cases xs with
  | nil =>
    have hall : ∀ c ∈ [opening, closing], isBlank c = false := by simp [ho, hc]
    exact tighten_of_forall hall
  | cons x xs =>
    rw [List.forall_mem_cons] at h
    have hitems := tightenFrom_items hc h.2 false (f x)
    rw [← tighten, ← tighten, h.1] at hitems
    have hopen := tightenFrom_append_cons ho false []
      (f x ++ (xs.flatMap (fun x => ',' :: f x) ++ [closing]))
    rw [← tighten, ← tighten, hitems] at hopen
    simpa [layout, List.flatMap_map, tighten, tightenFrom] using hopen

namespace Value

/-! ## The strings of a value -/

mutual

/-- The strings and keys of a value, in the order in which they are printed. -/
def strings : Value → List Text
  | .null => []
  | .bool _ => []
  | .number _ => []
  | .string s => [s]
  | .array items => itemStrings items
  | .object fields => fieldStrings fields

/-- The strings of items. -/
def itemStrings : List Value → List Text
  | [] => []
  | v :: vs => v.strings ++ itemStrings vs

/-- The keys and strings of fields. -/
def fieldStrings : List (Text × Value) → List Text
  | [] => []
  | (k, v) :: fs => (k :: v.strings) ++ fieldStrings fs

end

theorem itemStrings_eq_flatMap (vs : List Value) : itemStrings vs = vs.flatMap strings := by
  induction vs with
  | nil => rfl
  | cons v vs ih => rw [itemStrings, ih, List.flatMap_cons]

theorem fieldStrings_eq_flatMap (fs : List (Text × Value)) :
    fieldStrings fs = fs.flatMap fun f => f.1 :: f.2.strings := by
  induction fs with
  | nil => rfl
  | cons f fs ih => rw [fieldStrings, ih, List.flatMap_cons]

mutual

/-- The value with a function applied to its strings and keys. -/
def mapStrings (g : Text → Text) : Value → Value
  | .null => .null
  | .bool b => .bool b
  | .number n => .number n
  | .string s => .string (g s)
  | .array items => .array (mapItems g items)
  | .object fields => .object (mapFields g fields)

/-- The items with a function applied to their strings. -/
def mapItems (g : Text → Text) : List Value → List Value
  | [] => []
  | v :: vs => v.mapStrings g :: mapItems g vs

/-- The fields with a function applied to their keys and strings. -/
def mapFields (g : Text → Text) : List (Text × Value) → List (Text × Value)
  | [] => []
  | (k, v) :: fs => (g k, v.mapStrings g) :: mapFields g fs

end

theorem mapItems_eq_map (g : Text → Text) (vs : List Value) :
    mapItems g vs = vs.map (mapStrings g) := by
  induction vs with
  | nil => rfl
  | cons v vs ih => rw [mapItems, ih, List.map_cons]

theorem mapFields_eq_map (g : Text → Text) (fs : List (Text × Value)) :
    mapFields g fs = fs.map fun f => (g f.1, f.2.mapStrings g) := by
  induction fs with
  | nil => rfl
  | cons f fs ih => rw [mapFields, ih, List.map_cons]

section

variable {p : Number → Prop} {q : List Text → Prop} {v : Value} {g : Text → Text}

theorem All.mapStrings (h : All p q v) : All p (fun _ => True) (v.mapStrings g) := by
  induction h with
  | null => exact .null
  | bool b => exact .bool b
  | number hp => exact .number hp
  | string s => exact .string (g s)
  | array _ ih =>
    rw [Value.mapStrings, mapItems_eq_map]
    exact .array (List.forall_mem_map.2 ih)
  | object _ _ ih =>
    rw [Value.mapStrings, mapFields_eq_map]
    exact .object trivial (List.forall_mem_map.2 ih)

theorem depth_mapStrings (h : All p q v) : (v.mapStrings g).depth = v.depth := by
  induction h with
  | null => rfl
  | bool b => rfl
  | number hp => rfl
  | string s => rfl
  | array _ ih =>
    rw [mapStrings, depth, depth, mapItems_eq_map]
    refine congrArg (· + 1) (eq_of_forall_ge_iff fun d => ?_)
    rw [itemsDepth_le_iff, itemsDepth_le_iff, List.forall_mem_map]
    exact forall₂_congr fun v hv => by rw [ih v hv]
  | object _ _ ih =>
    rw [mapStrings, depth, depth, mapFields_eq_map]
    refine congrArg (· + 1) (eq_of_forall_ge_iff fun d => ?_)
    rw [fieldsDepth_le_iff, fieldsDepth_le_iff, List.forall_mem_map]
    exact forall₂_congr fun f hf => by rw [ih f hf]

theorem strings_mapStrings (h : All p q v) : (v.mapStrings g).strings = v.strings.map g := by
  induction h with
  | null => rfl
  | bool b => rfl
  | number hp => rfl
  | string s => rfl
  | array _ ih =>
    rw [mapStrings, strings, strings, mapItems_eq_map, itemStrings_eq_flatMap,
      itemStrings_eq_flatMap, List.flatMap_map, List.map_flatMap]
    exact List.flatMap_congr ih
  | object _ _ ih =>
    rw [mapStrings, strings, strings, mapFields_eq_map, fieldStrings_eq_flatMap,
      fieldStrings_eq_flatMap, List.flatMap_map, List.map_flatMap]
    exact List.flatMap_congr fun f hf => congrArg (g f.1 :: ·) (ih f hf)

theorem mapStrings_eq_self (h : All p q v) (hg : ∀ s ∈ v.strings, g s = s) :
    v.mapStrings g = v := by
  induction h with
  | null => rfl
  | bool b => rfl
  | number hp => rfl
  | string s => rw [mapStrings, hg s (by simp [strings])]
  | @array items _ ih =>
    rw [strings, itemStrings_eq_flatMap, List.forall_mem_flatMap] at hg
    rw [mapStrings, mapItems_eq_map, List.map_congr_left fun v hv => ih v hv (hg v hv), List.map_id']
  | @object fields _ _ ih =>
    rw [strings, fieldStrings_eq_flatMap, List.forall_mem_flatMap] at hg
    have hmap : ∀ f ∈ fields, (g f.1, f.2.mapStrings g) = f := by
      intro f hf
      have hall := List.forall_mem_cons.1 (hg f hf)
      rw [hall.1, ih f hf hall.2]
    rw [mapStrings, mapFields_eq_map, List.map_congr_left hmap, List.map_id']

/-- Merging fields brings up no string. -/
theorem strings_merged_subset (h : All p q v) : v.merged.strings ⊆ v.strings := by
  induction h with
  | null => exact List.Subset.refl _
  | bool b => exact List.Subset.refl _
  | number hp => exact List.Subset.refl _
  | string s => exact List.Subset.refl _
  | array _ ih =>
    intro s hs
    rw [merged, strings, mergedItems_eq_map, itemStrings_eq_flatMap, List.flatMap_map,
      List.mem_flatMap] at hs
    obtain ⟨v, hv, hs⟩ := hs
    rw [strings, itemStrings_eq_flatMap]
    exact List.mem_flatMap.2 ⟨v, hv, ih v hv hs⟩
  | object _ _ ih =>
    intro s hs
    rw [merged, strings, mergedFields_eq_map, fieldStrings_eq_flatMap, List.mem_flatMap] at hs
    obtain ⟨e, he, hs⟩ := hs
    obtain ⟨f, hf, rfl⟩ := List.mem_map.1 (Assoc.mem_of_mem_ofList he)
    rw [strings, fieldStrings_eq_flatMap]
    exact List.mem_flatMap.2 ⟨f, hf, List.cons_subset_cons f.1 (ih f hf) hs⟩

end

/-! ## Single spaces in the strings of a value -/

variable {q : List Text → Prop} {v : Value}

/-- The value with single spaces in its strings, as it is read back from its compact text. -/
def spaced (v : Value) : Value := (v.mapStrings singleSpaces).merged

/-- **The compact text of a value, tightened.** -/
theorem tighten_compact (h : v.All (·.isInteger = true) q) :
    tighten v.compact = (v.mapStrings singleSpaces).compact := by
  induction h with
  | null => decide
  | bool b => cases b <;> decide
  | number hn =>
    obtain ⟨k, rfl, -⟩ := Number.exists_of_isInteger hn
    exact tighten_of_forall fun _ => Number.not_isBlank_of_mem_render
  | string s => simpa [compact, mapStrings, tighten, tightenFrom] using
      tightenFrom_renderString false s []
  | array _ ih =>
    rw [mapStrings, mapItems_eq_map, compact_array, compact_array, List.map_map]
    exact tighten_layout (by decide) (by decide) ih
  | object _ _ ih =>
    rw [mapStrings, mapFields_eq_map, compact_object, compact_object, List.map_map]
    refine tighten_layout (by decide) (by decide) fun f hf => ?_
    have hcolon := tightenFrom_append_cons (show isBlank ':' = false by decide) false [] f.2.compact
    have hfield := tightenFrom_renderString false f.1 (':' :: f.2.compact)
    rw [List.nil_append, ← tighten, ← tighten, ih f hf] at hcolon
    rw [← tighten, hcolon] at hfield
    exact hfield

theorem parse?_tighten_compact (h : v.All (·.isInteger = true) q) (hd : v.depth ≤ maxDepth) :
    parse? (tighten v.compact) = some v.spaced := by
  have hdepth : (v.mapStrings singleSpaces).depth ≤ maxDepth := by rwa [depth_mapStrings h]
  rw [tighten_compact h, parse?_compact_eq_merged h.mapStrings, if_pos hdepth, spaced]

theorem mapStrings_spaced (h : v.All (·.isInteger = true) q) :
    v.spaced.mapStrings singleSpaces = v.spaced := by
  refine mapStrings_eq_self h.mapStrings.merged fun s hs => ?_
  have hmem := strings_merged_subset h.mapStrings hs
  rw [strings_mapStrings h] at hmem
  obtain ⟨r, -, rfl⟩ := List.mem_map.1 hmem
  exact singleSpaces_singleSpaces r

/-- **The text that is read and printed is the one that was written** just if every string of the
value has single spaces only. -/
theorem compact_spaced_eq_iff (h : v.Regular) (hd : v.depth ≤ maxDepth) :
    v.spaced.compact = v.compact ↔ ∀ s ∈ v.strings, singleSpaces s = s := by
  constructor
  · intro heq
    have hparse := parse?_tighten_compact h hd
    have hdepth := (sound_of_parse? hparse).2
    have hregular : v.spaced.Regular := h.mapStrings.merged
    have hspaced : v.spaced = v := by
      have hread := parse?_compact hregular
      rw [if_pos hdepth, heq, parse?_compact h, if_pos hd] at hread
      exact (Option.some.inj hread).symm
    have hmap := congrArg strings (mapStrings_spaced h)
    rw [hspaced, strings_mapStrings h] at hmap
    exact List.map_eq_map_iff.1 (hmap.trans (List.map_id _).symm)
  · intro hs
    rw [spaced, mapStrings_eq_self h hs, merged_of_nodup h]

end Value

end SpecHarvest.Json
