import SpecHarvest.Proofs.Assoc
import SpecHarvest.Proofs.Json.Numeral
import SpecHarvest.Proofs.Json.String

/-!
# Values and the trees that spell them

* `All p q v`: every number in `v` satisfies `p`, and the keys of every object in it `q`. A value is
  `Sound` if its numbers fit 64 bits and its keys are distinct, and `Regular` if it has no
  floating-point numbers, either.
* `depth`: how deep the arrays and objects of a value are nested.
* `merged`: a value with the fields merged that have one key.
* `tree`: the tree that a value is printed as. `ofTree?_tree` reads it back with its fields merged,
  if it is not nested too deep, and `ofTree?_tree_of_regular` as it is.
* `sound_of_ofTree?`: every value that is read is sound.
-/

namespace SpecHarvest.Json

namespace Number

/-- The number that a number is printed as. -/
def numeral (n : Number) : Numeral :=
  match numeral? n.render with
  | some (m, _) => m
  | none => ⟨false, [], [], none⟩

theorem numeral_int (k : Int) : (int k).numeral = numeralOf k := by
  have hstops : Stops [] := by simp [Stops]
  have h := numeral?_render k hstops
  rw [List.append_nil] at h
  rw [numeral, h]

/-- Whether a number is an integer of 64 bits. -/
def isInteger : Number → Bool
  | int k => Fits k
  | float _ => false

/-- Whether a number fits 64 bits, as an integer or as a floating-point number. -/
def isSized : Number → Bool
  | int k => Fits k
  | float _ => true

/-- Whether a number is a floating-point number. -/
def isFloat : Number → Bool
  | int _ => false
  | float _ => true

theorem exists_of_isInteger {n : Number} (h : n.isInteger = true) : ∃ k, n = int k ∧ Fits k := by
  cases n with
  | int k => exact ⟨k, rfl, of_decide_eq_true h⟩
  | float x => cases h

theorem isInteger_of_fits {k : Int} (h : Fits k) : (int k).isInteger = true := decide_eq_true h

theorem isInteger_of_isSized {n : Number} (h : n.isSized = true) (hf : n.isFloat = false) :
    n.isInteger = true := by
  cases n with
  | int k => exact h
  | float x => cases hf

end Number

namespace Value

instance : (v : Value) → Decidable (v = .null)
  | .null => .isTrue rfl
  | .bool _ | .number _ | .string _ | .array _ | .object _ => .isFalse nofun

/-- All numbers of a value satisfy `p` and the keys of all its objects `q`. -/
inductive All (p : Number → Prop) (q : List Text → Prop) : Value → Prop
  | null : All p q .null
  | bool (b : Bool) : All p q (.bool b)
  | number {n : Number} : p n → All p q (.number n)
  | string (s : Text) : All p q (.string s)
  | array {items : List Value} : (∀ v ∈ items, All p q v) → All p q (.array items)
  | object {fields : List (Text × Value)} : q (fields.map (·.1)) →
    (∀ f ∈ fields, All p q f.2) → All p q (.object fields)

/-- No number is a floating-point number. -/
abbrev NoFloat : Value → Prop := All (·.isFloat = false) fun _ => True

/-- All numbers fit 64 bits and no object repeats a key. -/
abbrev Sound : Value → Prop := All (·.isSized = true) List.Nodup

/-- All numbers are integers of 64 bits and no object repeats a key. -/
abbrev Regular : Value → Prop := All (·.isInteger = true) List.Nodup

section All

variable {p p' : Number → Prop} {q q' : List Text → Prop} {v : Value}

theorem All.and (h : All p q v) (h' : All p' q' v) :
    All (fun n => p n ∧ p' n) (fun ks => q ks ∧ q' ks) v := by
  induction h with
  | null => exact .null
  | bool b => exact .bool b
  | number hp =>
    cases h' with
    | number hp' => exact .number ⟨hp, hp'⟩
  | string s => exact .string s
  | array _ ih =>
    cases h' with
    | array h' => exact .array fun v hv => ih v hv (h' v hv)
  | object hq _ ih =>
    cases h' with
    | object hq' h' => exact .object ⟨hq, hq'⟩ fun f hf => ih f hf (h' f hf)

theorem All.imp (h : All p q v) (hp : ∀ n, p n → p' n) (hq : ∀ ks, q ks → q' ks) :
    All p' q' v := by
  induction h with
  | null => exact .null
  | bool b => exact .bool b
  | number h => exact .number (hp _ h)
  | string s => exact .string s
  | array _ ih => exact .array ih
  | object h _ ih => exact .object (hq _ h) ih

variable [DecidablePred p] [DecidablePred q]

mutual

/-- `All`, decided. -/
def decideAll : (v : Value) → Decidable (All p q v)
  | .null => .isTrue .null
  | .bool b => .isTrue (.bool b)
  | .number n =>
    if h : p n then .isTrue (.number h)
    else .isFalse fun
      | .number hn => h hn
  | .string s => .isTrue (.string s)
  | .array items =>
    match decideItems items with
    | .isTrue h => .isTrue (.array h)
    | .isFalse h => .isFalse fun
      | .array hi => h hi
  | .object fields =>
    if hq : q (fields.map (·.1)) then
      match decideFields fields with
      | .isTrue h => .isTrue (.object hq h)
      | .isFalse h => .isFalse fun
        | .object _ hf => h hf
    else .isFalse fun
      | .object h _ => hq h

/-- `All` for items, decided. -/
def decideItems : (vs : List Value) → Decidable (∀ v ∈ vs, All p q v)
  | [] => .isTrue fun _ h => nomatch h
  | v :: vs =>
    match decideAll v, decideItems vs with
    | .isTrue h, .isTrue hs => .isTrue (List.forall_mem_cons.2 ⟨h, hs⟩)
    | .isFalse h, _ => .isFalse fun hall => h (List.forall_mem_cons.1 hall).1
    | _, .isFalse hs => .isFalse fun hall => hs (List.forall_mem_cons.1 hall).2

/-- `All` for fields, decided. -/
def decideFields : (fs : List (Text × Value)) → Decidable (∀ f ∈ fs, All p q f.2)
  | [] => .isTrue fun _ h => nomatch h
  | (_, v) :: fs =>
    match decideAll v, decideFields fs with
    | .isTrue h, .isTrue hs => .isTrue (List.forall_mem_cons.2 ⟨h, hs⟩)
    | .isFalse h, _ => .isFalse fun hall => h (List.forall_mem_cons.1 hall).1
    | _, .isFalse hs => .isFalse fun hall => hs (List.forall_mem_cons.1 hall).2

end

instance : DecidablePred (All p q) := decideAll

end All

/-! ## Depth -/

mutual

/-- How deep arrays and objects are nested. -/
def depth : Value → Nat
  | .array items => itemsDepth items + 1
  | .object fields => fieldsDepth fields + 1
  | _ => 0

/-- The depth of the deepest item. -/
def itemsDepth : List Value → Nat
  | [] => 0
  | v :: vs => max v.depth (itemsDepth vs)

/-- The depth of the deepest field. -/
def fieldsDepth : List (Text × Value) → Nat
  | [] => 0
  | (_, v) :: fs => max v.depth (fieldsDepth fs)

end

theorem itemsDepth_le_iff {vs : List Value} {d : Nat} :
    itemsDepth vs ≤ d ↔ ∀ v ∈ vs, v.depth ≤ d := by
  induction vs with
  | nil => simp [itemsDepth]
  | cons v vs ih => rw [itemsDepth, Nat.max_le, ih, List.forall_mem_cons]

theorem fieldsDepth_le_iff {fs : List (Text × Value)} {d : Nat} :
    fieldsDepth fs ≤ d ↔ ∀ f ∈ fs, f.2.depth ≤ d := by
  induction fs with
  | nil => simp [fieldsDepth]
  | cons f fs ih => rw [fieldsDepth, Nat.max_le, ih, List.forall_mem_cons]

/-! ## Merged fields -/

mutual

/-- The value in which every object keeps the last of the fields with one key, in the place of the
first of them. -/
def merged : Value → Value
  | .null => .null
  | .bool b => .bool b
  | .number n => .number n
  | .string s => .string s
  | .array items => .array (mergedItems items)
  | .object fields => .object (Assoc.ofList (mergedFields fields))

/-- The items, with the fields in them merged. -/
def mergedItems : List Value → List Value
  | [] => []
  | v :: vs => v.merged :: mergedItems vs

/-- The fields, with the fields in their values merged. -/
def mergedFields : List (Text × Value) → List (Text × Value)
  | [] => []
  | (k, v) :: fs => (k, v.merged) :: mergedFields fs

end

theorem mergedItems_eq_map (vs : List Value) : mergedItems vs = vs.map merged := by
  induction vs with
  | nil => rfl
  | cons v vs ih => rw [mergedItems, ih, List.map_cons]

theorem mergedFields_eq_map (fs : List (Text × Value)) :
    mergedFields fs = fs.map fun f => (f.1, f.2.merged) := by
  induction fs with
  | nil => rfl
  | cons f fs ih => rw [mergedFields, ih, List.map_cons]

/-- Merging leaves distinct keys. -/
theorem All.merged {p : Number → Prop} {q : List Text → Prop} {v : Value} (h : All p q v) :
    All p List.Nodup v.merged := by
  induction h with
  | null => exact .null
  | bool b => exact .bool b
  | number hp => exact .number hp
  | string s => exact .string s
  | array _ ih =>
    rw [Value.merged, mergedItems_eq_map]
    refine .array fun w hw => ?_
    obtain ⟨v, hv, rfl⟩ := List.mem_map.1 hw
    exact ih v hv
  | object _ _ ih =>
    rw [Value.merged, mergedFields_eq_map]
    refine .object (Assoc.nodup_ofList _) fun g hg => ?_
    obtain ⟨f, hf, rfl⟩ := List.mem_map.1 (Assoc.mem_of_mem_ofList hg)
    exact ih f hf

/-- Nothing is merged where keys are distinct. -/
theorem merged_of_nodup {p : Number → Prop} {v : Value} (h : All p List.Nodup v) :
    v.merged = v := by
  induction h with
  | null => rfl
  | bool b => rfl
  | number hp => rfl
  | string s => rfl
  | array _ ih => rw [merged, mergedItems_eq_map, List.map_congr_left ih, List.map_id']
  | object hk _ ih =>
    have hmap := List.map_congr_left fun (f : Text × Value) hf => congrArg (Prod.mk f.1) (ih f hf)
    rw [merged, mergedFields_eq_map, hmap, List.map_id', Assoc.ofList_of_nodup hk]

/-! ## Trees -/

mutual

/-- The tree that a value is printed as. -/
def tree : Value → Tree
  | .null => .null
  | .bool b => .bool b
  | .number n => .number n.numeral
  | .string s => .string (escaped s)
  | .array items => .array (itemTrees items)
  | .object fields => .object (fieldTrees fields)

/-- The trees of items. -/
def itemTrees : List Value → List Tree
  | [] => []
  | v :: vs => v.tree :: itemTrees vs

/-- The keys and trees of fields. -/
def fieldTrees : List (Text × Value) → List (Text × Tree)
  | [] => []
  | (k, v) :: fs => (escaped k, v.tree) :: fieldTrees fs

end

theorem itemTrees_eq_map (vs : List Value) : itemTrees vs = vs.map tree := by
  induction vs with
  | nil => rfl
  | cons v vs ih => rw [itemTrees, ih, List.map_cons]

theorem fieldTrees_eq_map (fs : List (Text × Value)) :
    fieldTrees fs = fs.map fun f => (escaped f.1, f.2.tree) := by
  induction fs with
  | nil => rfl
  | cons f fs ih => rw [fieldTrees, ih, List.map_cons]

/-! ## Reading a tree back -/

/-- Reading item by item, where each item is read if a condition holds. -/
theorem mapM_map_of_ite {α β γ : Type} {f : β → Option γ} {g : α → β} {h : α → γ} {P : α → Prop}
    [DecidablePred P] {xs : List α} (hf : ∀ x ∈ xs, f (g x) = if P x then some (h x) else none) :
    (xs.map g).mapM f = if ∀ x ∈ xs, P x then some (xs.map h) else none := by
  induction xs with
  | nil => simp
  | cons x xs ih =>
    rw [List.map_cons, List.mapM_cons, hf x (by simp), ih fun y hy => hf y (by simp [hy])]
    by_cases hx : P x
    · by_cases hxs : ∀ y ∈ xs, P y
      · rw [if_pos hx, if_pos hxs, if_pos (List.forall_mem_cons.2 ⟨hx, hxs⟩)]
        rfl
      · rw [if_neg hxs, if_neg fun h => hxs (List.forall_mem_cons.1 h).2]
        cases if P x then some (h x) else none <;> rfl
    · rw [if_neg hx, if_neg fun h => hx (List.forall_mem_cons.1 h).1]
      rfl

theorem mapM_map_of_some {α β γ : Type} {f : β → Option γ} {g : α → β} {h : α → γ} {xs : List α}
    (hf : ∀ x ∈ xs, f (g x) = some (h x)) : (xs.map g).mapM f = some (xs.map h) := by
  have hm := mapM_map_of_ite (P := fun _ => True) fun x hx => (hf x hx).trans (if_pos trivial).symm
  rw [hm, if_pos fun _ _ => trivial]

/-- **The tree of a value denotes the value** with its fields merged, if it is not nested too
deep. -/
theorem ofTree?_tree {q : List Text → Prop} {v : Value} (h : v.All (·.isInteger = true) q)
    (d : Nat) : ofTree? d v.tree = if v.depth ≤ d then some v.merged else none := by
  induction h generalizing d with
  | null => cases d <;> simp [tree, ofTree?, depth, merged]
  | bool b => cases d <;> simp [tree, ofTree?, depth, merged]
  | number hn =>
    obtain ⟨k, rfl, hk⟩ := Number.exists_of_isInteger hn
    have hv : (Number.int k).numeral.value? = some (.int k) := by
      rw [Number.numeral_int, value?_numeralOf hk]
    cases d <;> simp [tree, ofTree?, depth, merged, hv]
  | string s => cases d <;> simp [tree, ofTree?, depth, merged, decodeString?_escaped]
  | @array items _ ih =>
    cases d with
    | zero => simp [tree, ofTree?, depth]
    | succ d =>
      have hm := mapM_map_of_ite (f := ofTree? d) (g := tree) (h := merged)
        (P := fun v => v.depth ≤ d) fun v hv => ih v hv d
      rw [tree, ofTree?, itemTrees_eq_map, hm, depth, merged, mergedItems_eq_map]
      simp only [Nat.add_le_add_iff_right]
      by_cases hd : itemsDepth items ≤ d
      · rw [if_pos hd, if_pos (itemsDepth_le_iff.1 hd), Option.map_some]
      · rw [if_neg hd, if_neg fun hall => hd (itemsDepth_le_iff.2 hall), Option.map_none]
  | @object fields _ _ ih =>
    cases d with
    | zero => simp [tree, ofTree?, depth]
    | succ d =>
      have hread : ∀ f ∈ fields, (do return (← decodeString? (escaped f.1), ← ofTree? d f.2.tree)) =
          if f.2.depth ≤ d then some (f.1, f.2.merged) else none := by
        intro f hf
        simp only [decodeString?_escaped, ih f hf d]
        split <;> rfl
      have hm := mapM_map_of_ite (g := fun f => (escaped f.1, f.2.tree))
        (f := fun f => do return (← decodeString? f.1, ← ofTree? d f.2))
        (h := fun f : Text × Value => (f.1, f.2.merged)) (P := fun f => f.2.depth ≤ d) hread
      rw [tree, ofTree?, fieldTrees_eq_map, hm, depth, merged, mergedFields_eq_map]
      simp only [Nat.add_le_add_iff_right]
      by_cases hd : fieldsDepth fields ≤ d
      · rw [if_pos hd, if_pos (fieldsDepth_le_iff.1 hd)]
        rfl
      · rw [if_neg hd, if_neg fun hall => hd (fieldsDepth_le_iff.2 hall)]
        rfl

theorem ofTree?_tree_of_regular {v : Value} (h : v.Regular) (d : Nat) :
    ofTree? d v.tree = if v.depth ≤ d then some v else none := by
  rw [ofTree?_tree h, merged_of_nodup h]

/-! ## Values that are read -/

theorem exists_of_mem_mapM {α β : Type} {f : α → Option β} {xs : List α} {ys : List β}
    (h : xs.mapM f = some ys) : ∀ y ∈ ys, ∃ x ∈ xs, f x = some y := by
  induction xs generalizing ys with
  | nil =>
    obtain rfl : ys = [] := by simpa using h.symm
    intro y hy
    cases hy
  | cons x xs ih =>
    rw [List.mapM_cons] at h
    simp only [Option.bind_eq_bind, Option.bind_eq_some_iff, Option.pure_def,
      Option.some.injEq] at h
    obtain ⟨z, hz, zs, hzs, rfl⟩ := h
    intro y hy
    rcases List.mem_cons.1 hy with rfl | hy
    · exact ⟨x, List.mem_cons_self, hz⟩
    · obtain ⟨w, hw, hf⟩ := ih hzs y hy
      exact ⟨w, List.mem_cons_of_mem _ hw, hf⟩

/-- **What is read** has integers of 64 bits and distinct keys and is nested no deeper than it may
be. -/
theorem sound_of_ofTree? {d : Nat} {t : Tree} {v : Value} (h : ofTree? d t = some v) :
    v.Sound ∧ v.depth ≤ d := by
  induction d using Nat.strongRecOn generalizing t v with | ind d ih => ?_
  fun_cases ofTree? d t with
  | case1 =>
    rw [ofTree?] at h
    obtain rfl := Option.some.inj h
    exact ⟨.null, Nat.zero_le _⟩
  | case2 _ b =>
    rw [ofTree?] at h
    obtain rfl := Option.some.inj h
    exact ⟨.bool b, Nat.zero_le _⟩
  | case3 _ n =>
    rw [ofTree?] at h
    obtain ⟨m, hm, rfl⟩ := Option.map_eq_some_iff.1 h
    refine ⟨.number ?_, Nat.zero_le _⟩
    cases m with
    | int k => exact decide_eq_true (fits_of_value? hm)
    | float x => rfl
  | case4 _ raw =>
    rw [ofTree?] at h
    obtain ⟨s, -, rfl⟩ := Option.map_eq_some_iff.1 h
    exact ⟨.string s, Nat.zero_le _⟩
  | case5 d items =>
    obtain ⟨vs, hvs, rfl⟩ := Option.map_eq_some_iff.1 h
    have hall : ∀ v ∈ vs, v.Sound ∧ v.depth ≤ d := by
      intro v hv
      obtain ⟨t, -, ht⟩ := exists_of_mem_mapM hvs v hv
      exact ih d (Nat.lt_succ_self d) ht
    refine ⟨.array fun v hv => (hall v hv).1, ?_⟩
    exact Nat.succ_le_succ (itemsDepth_le_iff.2 fun v hv => (hall v hv).2)
  | case6 d fields =>
    rw [ofTree?, Option.bind_eq_bind, Option.bind_eq_some_iff] at h
    obtain ⟨fs, hfs, he⟩ := h
    obtain rfl := Option.some.inj he
    have hall : ∀ f ∈ Assoc.ofList fs, f.2.Sound ∧ f.2.depth ≤ d := by
      intro f hf
      obtain ⟨⟨k, t⟩, -, ht⟩ := exists_of_mem_mapM hfs f (Assoc.mem_of_mem_ofList hf)
      simp only [Option.bind_eq_bind, Option.bind_eq_some_iff, Option.pure_def,
        Option.some.injEq] at ht
      obtain ⟨_, -, w, hw, rfl⟩ := ht
      exact ih d (Nat.lt_succ_self d) hw
    refine ⟨.object (Assoc.nodup_ofList fs) fun f hf => (hall f hf).1, ?_⟩
    exact Nat.succ_le_succ (fieldsDepth_le_iff.2 fun f hf => (hall f hf).2)
  | case7 => cases h
  | case8 => cases h

/-- Nothing but null is read as null. -/
theorem eq_null_of_ofTree? {d : Nat} {t : Tree} (h : ofTree? d t = some .null) : t = .null := by
  cases t with
  | null => rfl
  | bool b => simp [ofTree?] at h
  | number n => simp [ofTree?] at h
  | string raw => simp [ofTree?] at h
  | array items => cases d <;> simp [ofTree?] at h
  | object fields =>
    cases d with
    | zero => cases h
    | succ d =>
      obtain ⟨fs, -, he⟩ := Option.bind_eq_some_iff.1 h
      cases he

theorem sound_of_parse? {s : Text} {v : Value} (h : parse? s = some v) :
    v.Sound ∧ v.depth ≤ maxDepth := by
  obtain ⟨t, -, ht⟩ := Option.bind_eq_some_iff.1 h
  exact sound_of_ofTree? ht

theorem regular_of_sound {v : Value} (h : v.Sound) (hf : v.NoFloat) : v.Regular :=
  (h.and hf).imp (fun _ hn => Number.isInteger_of_isSized hn.1 hn.2) fun _ => And.left

end Value

end SpecHarvest.Json
