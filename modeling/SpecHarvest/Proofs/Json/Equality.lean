import SpecHarvest.Proofs.Json.Compare

/-!
# Equality and containment of values

Objects are compared key by key, from the side of the first one only, so the laws of the two
comparisons need that no object repeats a key.

* `Value.Distinct`: no object of a value repeats a key.
* `Number.same_iff`: numbers are compared by the floating-point numbers that they become.
* `Value.equal_array_iff`, `Value.equal_object_iff`: arrays are compared place by place and objects
  key by key. `Value.within_object_iff` asks of the keys of the first object only.
* `Value.Agree`: equal up to the order of keys, by `Value.equal_iff_agree` what equality is.
* `Value.equal_within_laws`: equality is an equivalence, containment is a preorder, and two values
  are contained in each other just if they are equal.
-/

namespace SpecHarvest.Json

/-! ## Numbers -/

/-- A floating-point number with the sign of a zero forgotten. -/
def Binary64.unsignedZero (a : Binary64) : Binary64 := if a.mantissa = 0 then zero false else a

theorem Binary64.sameNumber_iff {a b : Binary64} :
    a.sameNumber b = true ↔ a.unsignedZero = b.unsignedZero := by
  have hzero : ∀ {c : Binary64}, c.mantissa ≠ 0 → zero false ≠ c := by
    rintro c hc rfl
    exact hc rfl
  unfold sameNumber unsignedZero
  by_cases ha : a.mantissa = 0 <;> by_cases hb : b.mantissa = 0
  · simp [ha, hb]
  · have hne : a ≠ b := fun h => hb (h ▸ ha)
    simp [ha, hb, hne, hzero hb]
  · have hne : a ≠ b := fun h => ha (h ▸ hb)
    simp [ha, hb, hne, (hzero ha).symm]
  · simp [ha, hb]

/-- The floating-point number that a number is compared as. -/
def Number.double (n : Number) : Option Binary64 := n.toBinary64.map Binary64.unsignedZero

theorem Number.same_iff {m n : Number} : m.same n = true ↔ m.double = n.double := by
  unfold same double
  cases m.toBinary64 <;> cases n.toBinary64 <;> simp [Binary64.sameNumber_iff]

/-! ## Entries that are related -/

section

variable {α β γ : Type} {R : α → β → Prop} {a : Option α} {b : Option β}

theorem rel_imp {S : α → β → Prop} (h : Option.Rel R a b)
    (hs : ∀ x ∈ a, ∀ y ∈ b, R x y → S x y) : Option.Rel S a b := by
  cases h with
  | some h => exact .some (hs _ rfl _ rfl h)
  | none => exact .none

theorem rel_flip (h : Option.Rel R a b) : Option.Rel (fun y x => R x y) b a := by
  cases h with
  | some h => exact .some h
  | none => exact .none

theorem exists_of_rel (h : Option.Rel R a b) : ∀ x, a = some x → ∃ y, b = some y ∧ R x y := by
  rintro x rfl
  cases h with
  | some h => exact ⟨_, rfl, h⟩

theorem rel_trans {S : β → γ → Prop} {T : α → γ → Prop} {c : Option γ} (h : Option.Rel R a b)
    (h' : Option.Rel S b c) (ht : ∀ x ∈ a, ∀ y ∈ b, ∀ z ∈ c, R x y → S y z → T x z) :
    Option.Rel T a c := by
  cases h with
  | some h =>
    cases h' with
    | some h' => exact .some (ht _ rfl _ rfl _ rfl h h')
  | none =>
    cases h'
    exact .none

theorem rel_getElem?_iff {xs : List α} {ys : List β} :
    (∀ i : Nat, Option.Rel R xs[i]? ys[i]?) ↔ xs.length = ys.length ∧
      ∀ (i : Nat) x y, xs[i]? = some x → ys[i]? = some y → R x y := by
  constructor
  · intro h
    refine ⟨?_, fun i x y hx hy => ?_⟩
    · have hends : ∀ i, i < xs.length ↔ i < ys.length := by
        intro i
        have hi := h i
        rw [← not_iff_not, Nat.not_lt, Nat.not_lt, ← List.getElem?_eq_none_iff,
          ← List.getElem?_eq_none_iff]
        cases hx : xs[i]? <;> cases hy : ys[i]? <;> simp_all
      have hx := hends xs.length
      have hy := hends ys.length
      omega
    · have hi := h i
      rwa [hx, hy, Option.rel_some_some] at hi
  · rintro ⟨hlength, h⟩ i
    by_cases hi : i < xs.length
    · rw [List.getElem?_eq_getElem hi, List.getElem?_eq_getElem (hlength ▸ hi)]
      exact .some (h i _ _ (List.getElem?_eq_getElem hi) (List.getElem?_eq_getElem (hlength ▸ hi)))
    · rw [List.getElem?_eq_none (by omega), List.getElem?_eq_none (by omega)]
      exact .none

theorem rel_get?_iff {κ : Type} [DecidableEq κ] {m : List (κ × α)} {n : List (κ × β)}
    (hm : (m.map (·.1)).Nodup) (hn : (n.map (·.1)).Nodup) :
    (∀ k, Option.Rel R (Assoc.get? k m) (Assoc.get? k n)) ↔ (m.map (·.1)).Perm (n.map (·.1)) ∧
      ∀ k x y, (k, x) ∈ m → (k, y) ∈ n → R x y := by
  constructor
  · intro h
    refine ⟨(List.perm_ext_iff_of_nodup hm hn).2 fun k => ?_, fun k x y hx hy => ?_⟩
    · have hk := h k
      rw [← not_iff_not, ← Assoc.get?_eq_none_iff, ← Assoc.get?_eq_none_iff]
      cases hx : Assoc.get? k m <;> cases hy : Assoc.get? k n <;> simp_all
    · have hk := h k
      rwa [Assoc.get?_eq_some_of_mem hm hx, Assoc.get?_eq_some_of_mem hn hy,
        Option.rel_some_some] at hk
  · rintro ⟨hperm, h⟩ k
    have hkeys := hperm.mem_iff (a := k)
    cases hx : Assoc.get? k m with
    | none =>
      rw [Assoc.get?_eq_none_iff, hkeys, ← Assoc.get?_eq_none_iff] at hx
      rw [hx]
      exact .none
    | some x =>
      have hmem := Assoc.mem_of_get? hx
      obtain ⟨y, hy⟩ := Assoc.exists_get?_of_mem (hkeys.1 (List.mem_map_of_mem hmem))
      rw [hy]
      exact .some (h k x y hmem (Assoc.mem_of_get? hy))

end

namespace Value

/-- No object of the value repeats a key. -/
abbrev Distinct : Value → Prop := All (fun _ => True) List.Nodup

variable {u v w : Value} {vs ws : List Value} {fs gs : List (Text × Value)}

theorem Distinct.item (h : (array vs).Distinct) {i : Nat} (hv : v ∈ vs[i]?) : v.Distinct := by
  cases h with
  | array h => exact h v (List.mem_of_getElem? hv)

theorem Distinct.keys (h : (object fs).Distinct) : (fs.map (·.1)).Nodup := by
  cases h with
  | object hf _ => exact hf

theorem Distinct.field (h : (object fs).Distinct) {k : Text} (hv : v ∈ Assoc.get? k fs) :
    v.Distinct := by
  cases h with
  | object _ h => exact h (k, v) (Assoc.mem_of_get? hv)

/-! ## Arrays and objects -/

section

variable {p : Value → Value → Bool}

/-- A test of items one after the other is a test place by place. -/
theorem items_iff {test : List Value → List Value → Bool} (hnil : test [] [] = true)
    (hleft : ∀ w ws, test [] (w :: ws) = false) (hright : ∀ v vs, test (v :: vs) [] = false)
    (hcons : ∀ v vs w ws, test (v :: vs) (w :: ws) = (p v w && test vs ws)) :
    test vs ws = true ↔ ∀ i : Nat, Option.Rel (fun v w => p v w = true) vs[i]? ws[i]? := by
  induction vs generalizing ws with
  | nil =>
    cases ws with
    | nil => simp [hnil]
    | cons w ws => simpa [hleft] using ⟨0, by simp⟩
  | cons v vs ih =>
    cases ws with
    | nil => simpa [hright] using ⟨0, by simp⟩
    | cons w ws =>
      rw [hcons, Bool.and_eq_true, ih]
      constructor
      · rintro ⟨hv, h⟩ i
        cases i with
        | zero => exact .some hv
        | succ i => exact h i
      · exact fun h => ⟨by simpa using h 0, fun i => h (i + 1)⟩

/-- A test of fields one after the other is a test key by key. -/
theorem fields_iff {test : List (Text × Value) → List (Text × Value) → Bool}
    (hf : (fs.map (·.1)).Nodup) (hnil : ∀ gs, test [] gs = true)
    (hcons : ∀ k v fs gs, test ((k, v) :: fs) gs =
      ((match Assoc.get? k gs with
        | some w => p v w
        | none => false) && test fs gs)) :
    test fs gs = true ↔
      ∀ k v, Assoc.get? k fs = some v → ∃ w, Assoc.get? k gs = some w ∧ p v w = true := by
  rw [← Assoc.forall_mem_iff hf (P := fun k v => ∃ w, Assoc.get? k gs = some w ∧ p v w = true)]
  clear hf
  induction fs with
  | nil => simp [hnil]
  | cons f fs ih =>
    rw [hcons, Bool.and_eq_true, ih, List.forall_mem_cons]
    cases Assoc.get? f.1 gs <;> simp

end

/-- **Equality of arrays**, place by place. -/
theorem equal_array_iff : equal (.array vs) (.array ws) = true ↔
    ∀ i : Nat, Option.Rel (fun v w => equal v w = true) vs[i]? ws[i]? := by
  rw [equal]
  exact items_iff rfl (fun _ _ => rfl) (fun _ _ => rfl) fun _ _ _ _ => rfl

/-- **Containment of arrays**, place by place. -/
theorem within_array_iff : within (.array vs) (.array ws) = true ↔
    ∀ i : Nat, Option.Rel (fun v w => within v w = true) vs[i]? ws[i]? := by
  rw [within]
  exact items_iff rfl (fun _ _ => rfl) (fun _ _ => rfl) fun _ _ _ _ => rfl

/-- **Containment of objects**: each key of the first has a value in the second that contains its
own. -/
theorem within_object_iff (hf : (fs.map (·.1)).Nodup) :
    within (.object fs) (.object gs) = true ↔
      ∀ k v, Assoc.get? k fs = some v → ∃ w, Assoc.get? k gs = some w ∧ within v w = true := by
  rw [within]
  exact fields_iff hf (fun _ => rfl) fun _ _ _ _ => rfl

/-- **Equality of objects**, key by key. -/
theorem equal_object_iff (hf : (fs.map (·.1)).Nodup) (hg : (gs.map (·.1)).Nodup) :
    equal (.object fs) (.object gs) = true ↔
      ∀ k, Option.Rel (fun v w => equal v w = true) (Assoc.get? k fs) (Assoc.get? k gs) := by
  rw [equal, Bool.and_eq_true, beq_iff_eq, rel_get?_iff hf hg,
    fields_iff (p := equal) hf (fun _ => rfl) fun _ _ _ _ => rfl]
  constructor
  · rintro ⟨hlength, h⟩
    have hsub : fs.map (·.1) ⊆ gs.map (·.1) := by
      intro k hk
      obtain ⟨v, hv⟩ := Assoc.exists_get?_of_mem hk
      obtain ⟨w, hw, -⟩ := h k v hv
      exact List.mem_map_of_mem (Assoc.mem_of_get? hw)
    refine ⟨Assoc.keys_perm_of_subset hf hsub hlength, fun k v w hv hw => ?_⟩
    obtain ⟨w', hw', he⟩ := h k v (Assoc.get?_eq_some_of_mem hf hv)
    rw [Assoc.get?_eq_some_of_mem hg hw] at hw'
    rwa [Option.some.inj hw']
  · rintro ⟨hperm, h⟩
    refine ⟨by simpa using hperm.length_eq, fun k v hv => ?_⟩
    have hk := hperm.mem_iff.1 (List.mem_map_of_mem (Assoc.mem_of_get? hv))
    obtain ⟨w, hw⟩ := Assoc.exists_get?_of_mem hk
    exact ⟨w, hw, h k v w (Assoc.mem_of_get? hv) (Assoc.mem_of_get? hw)⟩

/-! ## Values that are no scalars -/

theorem exists_of_equal_array (h : equal (.array vs) w = true) : ∃ ws, w = .array ws := by
  cases w with
  | array ws => exact ⟨ws, rfl⟩
  | _ => cases h

theorem exists_of_equal_object (h : equal (.object fs) w = true) : ∃ gs, w = .object gs := by
  cases w with
  | object gs => exact ⟨gs, rfl⟩
  | _ => cases h

theorem exists_of_within_array (h : within (.array vs) w = true) : ∃ ws, w = .array ws := by
  cases w with
  | array ws => exact ⟨ws, rfl⟩
  | _ => cases h

theorem exists_of_within_object (h : within (.object fs) w = true) : ∃ gs, w = .object gs := by
  cases w with
  | object gs => exact ⟨gs, rfl⟩
  | _ => cases h

/-! ## Equality is an equivalence -/

theorem equal_symm (hv : v.Distinct) (hw : w.Distinct) (h : equal v w = true) :
    equal w v = true := by
  induction hv generalizing w with
  | null | bool _ | number _ | string _ => cases w <;> simp_all [equal, Number.same_iff]
  | array _ ih =>
    obtain ⟨ws, rfl⟩ := exists_of_equal_array h
    rw [equal_array_iff] at h ⊢
    exact fun i => rel_imp (rel_flip (h i)) fun w hw' v hv =>
      ih v (List.mem_of_getElem? hv) (hw.item hw')
  | object hf _ ih =>
    obtain ⟨gs, rfl⟩ := exists_of_equal_object h
    rw [equal_object_iff hf hw.keys] at h
    rw [equal_object_iff hw.keys hf]
    exact fun k => rel_imp (rel_flip (h k)) fun w hw' v hv =>
      ih (k, v) (Assoc.mem_of_get? hv) (hw.field hw')

theorem equal_trans (hu : u.Distinct) (hv : v.Distinct) (hw : w.Distinct) (h : equal u v = true)
    (h' : equal v w = true) : equal u w = true := by
  induction hu generalizing v w with
  | null | bool _ | number _ | string _ =>
    cases v <;> cases w <;> simp_all [equal, Number.same_iff]
  | array _ ih =>
    obtain ⟨vs, rfl⟩ := exists_of_equal_array h
    obtain ⟨ws, rfl⟩ := exists_of_equal_array h'
    rw [equal_array_iff] at h h' ⊢
    exact fun i => rel_trans (h i) (h' i) fun u hu v hv' w hw' =>
      ih u (List.mem_of_getElem? hu) (hv.item hv') (hw.item hw')
  | object hf _ ih =>
    obtain ⟨gs, rfl⟩ := exists_of_equal_object h
    obtain ⟨hs, rfl⟩ := exists_of_equal_object h'
    rw [equal_object_iff hf hv.keys] at h
    rw [equal_object_iff hv.keys hw.keys] at h'
    rw [equal_object_iff hf hw.keys]
    exact fun k => rel_trans (h k) (h' k) fun u hu v hv' w hw' =>
      ih (k, u) (Assoc.mem_of_get? hu) (hv.field hv') (hw.field hw')

/-! ## Equality up to the order of keys -/

/-- Two values are equal up to the order of keys and up to a relation of their numbers: arrays have
one length and agree place by place, and objects have the same keys, with values that agree. -/
inductive Agree (r : Number → Number → Prop) : Value → Value → Prop
  | null : Agree r .null .null
  | bool (b : Bool) : Agree r (.bool b) (.bool b)
  | number {m n : Number} : r m n → Agree r (.number m) (.number n)
  | string (s : Text) : Agree r (.string s) (.string s)
  | array {vs ws : List Value} : vs.length = ws.length →
    (∀ (i : Nat) v w, vs[i]? = some v → ws[i]? = some w → Agree r v w) →
    Agree r (.array vs) (.array ws)
  | object {fs gs : List (Text × Value)} : (fs.map (·.1)).Perm (gs.map (·.1)) →
    (∀ k v w, (k, v) ∈ fs → (k, w) ∈ gs → Agree r v w) → Agree r (.object fs) (.object gs)

/-- Numbers may be related otherwise, as far as the values have them. -/
theorem Agree.imp {r r' : Number → Number → Prop} {p : Number → Prop} {q : List Text → Prop}
    (h : Agree r v w) (hv : v.All p q) (hw : w.All p q)
    (hr : ∀ m n, p m → p n → r m n → r' m n) : Agree r' v w := by
  induction h with
  | null => exact .null
  | bool b => exact .bool b
  | number h =>
    cases hv with
    | number hm =>
      cases hw with
      | number hn => exact .number (hr _ _ hm hn h)
  | string s => exact .string s
  | array hlength _ ih =>
    cases hv with
    | array hvs =>
      cases hw with
      | array hws =>
        exact .array hlength fun i v w hv hw =>
          ih i v w hv hw (hvs v (List.mem_of_getElem? hv)) (hws w (List.mem_of_getElem? hw))
  | object hperm _ ih =>
    cases hv with
    | object _ hfs =>
      cases hw with
      | object _ hgs =>
        exact .object hperm fun k v w hv hw => ih k v w hv hw (hfs (k, v) hv) (hgs (k, w) hw)

theorem agree_of_equal (hv : v.Distinct) (hw : w.Distinct) (h : equal v w = true) :
    Agree (fun m n => m.double = n.double) v w := by
  induction hv generalizing w with
  | null =>
    cases w with
    | null => exact .null
    | _ => cases h
  | bool b =>
    cases w with
    | bool c => exact eq_of_beq h ▸ .bool b
    | _ => cases h
  | number _ =>
    cases w with
    | number n => exact .number (Number.same_iff.1 h)
    | _ => cases h
  | string s =>
    cases w with
    | string t => exact eq_of_beq h ▸ .string s
    | _ => cases h
  | array _ ih =>
    obtain ⟨ws, rfl⟩ := exists_of_equal_array h
    rw [equal_array_iff, rel_getElem?_iff] at h
    exact .array h.1 fun i v w hv hw' =>
      ih v (List.mem_of_getElem? hv) (hw.item hw') (h.2 i v w hv hw')
  | object hf _ ih =>
    obtain ⟨gs, rfl⟩ := exists_of_equal_object h
    rw [equal_object_iff hf hw.keys, rel_get?_iff hf hw.keys] at h
    exact .object h.1 fun k v w hv hw' =>
      ih (k, v) hv (hw.field (Assoc.get?_eq_some_of_mem hw.keys hw')) (h.2 k v w hv hw')

/-- **Equality is equality up to the order of keys**, with numbers compared as floating-point
numbers. -/
theorem equal_iff_agree (hv : v.Distinct) (hw : w.Distinct) :
    equal v w = true ↔ Agree (fun m n => m.double = n.double) v w := by
  refine ⟨agree_of_equal hv hw, fun h => ?_⟩
  induction h with
  | null => rfl
  | bool b => exact beq_self_eq_true b
  | number h => exact Number.same_iff.2 h
  | string s => exact beq_self_eq_true s
  | array hlength _ ih =>
    rw [equal_array_iff, rel_getElem?_iff]
    exact ⟨hlength, fun i v w hv' hw' => ih i v w hv' hw' (hv.item hv') (hw.item hw')⟩
  | object hperm _ ih =>
    rw [equal_object_iff hv.keys hw.keys, rel_get?_iff hv.keys hw.keys]
    exact ⟨hperm, fun k v w hv' hw' => ih k v w hv' hw'
      (hv.field (Assoc.get?_eq_some_of_mem hv.keys hv'))
      (hw.field (Assoc.get?_eq_some_of_mem hw.keys hw'))⟩

/-! ## Containment is a preorder -/

/-- Equal values are contained in each other. -/
theorem within_of_equal (hv : v.Distinct) (hw : w.Distinct) (h : equal v w = true) :
    within v w = true := by
  induction hv generalizing w with
  | null | bool _ | number _ | string _ => exact h
  | array _ ih =>
    obtain ⟨ws, rfl⟩ := exists_of_equal_array h
    rw [equal_array_iff] at h
    rw [within_array_iff]
    exact fun i => rel_imp (h i) fun v hv w hw' => ih v (List.mem_of_getElem? hv) (hw.item hw')
  | object hf _ ih =>
    obtain ⟨gs, rfl⟩ := exists_of_equal_object h
    rw [equal_object_iff hf hw.keys] at h
    rw [within_object_iff hf]
    intro k v hv
    obtain ⟨w, hw', he⟩ := exists_of_rel (h k) v hv
    exact ⟨w, hw', ih (k, v) (Assoc.mem_of_get? hv) (hw.field hw') he⟩

theorem within_trans (hu : u.Distinct) (hv : v.Distinct) (h : within u v = true)
    (h' : within v w = true) : within u w = true := by
  induction hu generalizing v w with
  | null | bool _ | number _ | string _ =>
    cases v <;> cases w <;> simp_all [within, equal, Number.same_iff]
  | array _ ih =>
    obtain ⟨vs, rfl⟩ := exists_of_within_array h
    obtain ⟨ws, rfl⟩ := exists_of_within_array h'
    rw [within_array_iff] at h h' ⊢
    exact fun i => rel_trans (h i) (h' i) fun u hu v hv' w hw' =>
      ih u (List.mem_of_getElem? hu) (hv.item hv')
  | object hf _ ih =>
    obtain ⟨gs, rfl⟩ := exists_of_within_object h
    obtain ⟨hs, rfl⟩ := exists_of_within_object h'
    rw [within_object_iff hf] at h ⊢
    rw [within_object_iff hv.keys] at h'
    intro k u hu
    obtain ⟨v, hv', huv⟩ := h k u hu
    obtain ⟨w, hw', hvw⟩ := h' k v hv'
    exact ⟨w, hw', ih (k, u) (Assoc.mem_of_get? hu) (hv.field hv') huv hvw⟩

/-- **Values that are contained in each other are equal.** -/
theorem equal_of_within (hv : v.Distinct) (hw : w.Distinct) (h : within v w = true)
    (h' : within w v = true) : equal v w = true := by
  induction hv generalizing w with
  | null | bool _ | number _ | string _ => exact h
  | array _ ih =>
    obtain ⟨ws, rfl⟩ := exists_of_within_array h
    rw [within_array_iff] at h h'
    rw [equal_array_iff]
    refine fun i => rel_imp (h i) fun v hv w hw' hvw => ?_
    have hback := h' i
    rw [hv, hw', Option.rel_some_some] at hback
    exact ih v (List.mem_of_getElem? hv) (hw.item hw') hvw hback
  | @object fs hf _ ih =>
    obtain ⟨gs, rfl⟩ := exists_of_within_object h
    rw [within_object_iff hf] at h
    rw [within_object_iff hw.keys] at h'
    rw [equal_object_iff hf hw.keys]
    intro k
    cases hv : Assoc.get? k fs with
    | some v =>
      obtain ⟨w, hw', hvw⟩ := h k v hv
      obtain ⟨v', hv', hwv⟩ := h' k w hw'
      obtain rfl := Option.some.inj (hv.symm.trans hv')
      rw [hw']
      exact .some (ih (k, v) (Assoc.mem_of_get? hv) (hw.field hw') hvw hwv)
    | none =>
      -- a key of the second object would be one of the first
      have hnone : Assoc.get? k gs = none := by
        rw [Option.eq_none_iff_forall_ne_some]
        intro w hw'
        obtain ⟨v, hv', -⟩ := h' k w hw'
        rw [hv] at hv'
        cases hv'
      rw [hnone]
      exact .none

/-- **The laws of comparison**, for values in which no object repeats a key: equality is an
equivalence, containment is a preorder, and equality is containment both ways. The equivalence is
that of values up to the order of keys. -/
theorem equal_within_laws (hu : u.Distinct) (hv : v.Distinct) (hw : w.Distinct) :
    equal u u = true ∧ (equal u v = true → equal v u = true) ∧
      (equal u v = true → equal v w = true → equal u w = true) ∧
      within u u = true ∧ (within u v = true → within v w = true → within u w = true) ∧
      (within u v = true ∧ within v u = true ↔ equal u v = true) ∧
      (equal u v = true ↔ Agree (fun m n => m.double = n.double) u v) :=
  ⟨equal_self hu, equal_symm hu hv, equal_trans hu hv hw, within_of_equal hu hu (equal_self hu),
    within_trans hu hv, ⟨fun h => equal_of_within hu hv h.1 h.2,
      fun h => ⟨within_of_equal hu hv h, within_of_equal hv hu (equal_symm hu hv h)⟩⟩,
    equal_iff_agree hu hv⟩

/-- `1.0` -/
def oneFloat : Binary64 := ⟨false, 4503599627370496, -52⟩

/-- `{"a": 1, "b": [1.0, null]}` -/
def keyed : Value :=
  .object [("a".toList, .number (.int 1)), ("b".toList, .array [.number (.float oneFloat), .null])]

/-- `{"b": [1, null], "a": 1.0}` -/
def keyedAgain : Value :=
  .object [("b".toList, .array [.number (.int 1), .null]), ("a".toList, .number (.float oneFloat))]

theorem equal_within_laws_keyed : keyed.Distinct ∧ keyedAgain.Distinct ∧
    within keyed keyedAgain = true ∧ within keyedAgain keyed = true ∧
    equal keyed keyedAgain = true ∧ equal keyedAgain keyed = true ∧ equal keyed keyed = true ∧
    Agree (fun m n => m.double = n.double) keyed keyedAgain := by
  have hu : keyed.Distinct := by decide
  have hv : keyedAgain.Distinct := by decide
  have hwithin : within keyed keyedAgain = true := by decide +kernel
  have hback : within keyedAgain keyed = true := by decide +kernel
  obtain ⟨-, hsymm, htrans, -, -, hboth, hagree⟩ := equal_within_laws hu hv hu
  have he := hboth.1 ⟨hwithin, hback⟩
  exact ⟨hu, hv, hwithin, hback, he, hsymm he, htrans he (hsymm he), hagree.1 he⟩

end Value

end SpecHarvest.Json
