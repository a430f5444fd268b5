import SpecHarvest.Json.Compare
import SpecHarvest.Proofs.Json.Accepted

/-!
# Values and the texts they are read from

* `Value.equal_self`: a value with distinct keys is equal to itself.
* `Value.length_lt_of_parse?`: a JSON text is longer than the string it denotes, so it is not that
  string.
* `Value.trim_compact`, `Value.compact_ne_nil`: a compact text has no white space at its ends, and
  is not empty.
-/

namespace SpecHarvest.Json

/-! ## Equality -/

theorem Number.same_self (n : Number) : n.same n = true := by
  unfold Number.same
  cases n.toBinary64 <;> simp [Binary64.sameNumber]

/-! ## Texts that are not empty -/

theorem Binary64.writeDecimal_ne_nil (ds : Text) (e : Int) : writeDecimal ds e ≠ [] := by
  unfold writeDecimal
  split
  · dsimp only
    split <;> simp
  · split <;> simp

theorem Number.render_ne_nil (n : Number) : n.render ≠ [] := by
  cases n with
  | int k =>
    rw [Number.render]
    split
    · exact List.cons_ne_nil _ _
    · exact digitsOf_ne_nil _
  | float a =>
    rw [Number.render, Binary64.render]
    split
    · exact List.cons_ne_nil _ _
    · split
      · decide
      · exact Binary64.writeDecimal_ne_nil _ _

/-! ## Values that are equal to themselves -/

namespace Value

theorem equalItems_self {vs : List Value} (h : ∀ v ∈ vs, equal v v = true) :
    equalItems vs vs = true := by
  induction vs with
  | nil => rfl
  | cons v vs ih =>
    rw [List.forall_mem_cons] at h
    rw [equalItems, h.1, ih h.2]
    rfl

theorem equalFields_of_get? {fs gs : List (Text × Value)}
    (h : ∀ f ∈ fs, Assoc.get? f.1 gs = some f.2 ∧ equal f.2 f.2 = true) :
    equalFields fs gs = true := by
  induction fs with
  | nil => rfl
  | cons f fs ih =>
    rw [List.forall_mem_cons] at h
    rw [equalFields, h.1.1, ih h.2]
    simp [h.1.2]

/-- **A value with distinct keys is equal to itself.** -/
theorem equal_self {p : Number → Prop} {v : Value} (h : v.All p List.Nodup) :
    equal v v = true := by
  induction h with
  | null => rfl
  | bool b => simp [equal]
  | number _ => exact Number.same_self _
  | string s => simp [equal]
  | array _ ih => exact equalItems_self ih
  | object hk _ ih =>
    rw [equal, equalFields_of_get? fun f hf => ⟨Assoc.get?_eq_some_of_mem hk hf, ih f hf⟩]
    simp

end Value

/-! ## Strings -/

/-- An escape is no shorter than the character it stands for. -/
theorem length_le_of_decodeString? {raw s : Text} (h : decodeString? raw = some s) :
    s.length ≤ raw.length := by
  fun_induction decodeString? raw generalizing s with
  | case1 =>
    obtain rfl := Option.some.inj h
    exact Nat.le_refl _
  | case2 a b c d raw ihpair ih =>
    obtain ⟨n, -, h⟩ := Option.bind_eq_some_iff.1 h
    split at h
    · cases h
    · split at h
      · -- the upper half of a pair, which needs the lower half after it
        split at h
        · obtain ⟨m, -, h⟩ := Option.bind_eq_some_iff.1 h
          split at h
          · obtain ⟨r, hr, rfl⟩ := Option.map_eq_some_iff.1 h
            have := ihpair hr
            simp only [List.length_cons] at this ⊢
            omega
          · cases h
        · cases h
      · obtain ⟨r, hr, rfl⟩ := Option.map_eq_some_iff.1 h
        have := ih hr
        simp only [List.length_cons] at this ⊢
        omega
  | case3 e raw _ ih =>
    obtain ⟨c, -, h⟩ := Option.bind_eq_some_iff.1 h
    obtain ⟨r, hr, rfl⟩ := Option.map_eq_some_iff.1 h
    have := ih hr
    simp only [List.length_cons]
    omega
  | case4 c raw _ _ ih =>
    obtain ⟨r, hr, rfl⟩ := Option.map_eq_some_iff.1 h
    exact Nat.succ_le_succ (ih hr)

/-- A state that only an array or an object can be the result of. -/
def State.IsOpen : State → Prop
  | .value o => o ≠ []
  | .item _ | .field _ | .key _ _ | .colon _ _ _ => True
  | .complete v o => o ≠ [] ∨ ∀ raw, v ≠ .string raw

theorem isOpen_of_valueStep? {o : List Frame} {k : Token} {σ : State} (ho : o ≠ [])
    (h : valueStep? o k = some σ) : σ.IsOpen := by
  cases k <;> simp only [valueStep?, Option.some.injEq, reduceCtorEq] at h <;> subst h <;>
    simp [State.IsOpen, ho]

theorem isOpen_of_step? {σ τ : State} {k : Token} (hσ : σ.IsOpen) (h : step? σ k = some τ) :
    τ.IsOpen := by
  unfold step? at h
  split at h
  · exact isOpen_of_valueStep? hσ h
  · obtain rfl := Option.some.inj h
    simp [State.IsOpen]
  · exact isOpen_of_valueStep? (by simp) h
  all_goals
    simp only [Option.some.injEq, reduceCtorEq] at h
    try subst h
    try simp [State.IsOpen]

theorem isOpen_of_foldlM {ks : List Token} {σ τ : State} (hσ : σ.IsOpen)
    (h : ks.foldlM step? σ = some τ) : τ.IsOpen := by
  induction ks generalizing σ with
  | nil =>
    obtain rfl := Option.some.inj h
    exact hσ
  | cons k ks ih =>
    rw [List.foldlM_cons, Option.bind_eq_bind, Option.bind_eq_some_iff] at h
    obtain ⟨ρ, hρ, h⟩ := h
    exact ih (isOpen_of_step? hσ hρ) h

theorem isOpen_or_of_step? {k : Token} {σ : State} (h : step? (.value []) k = some σ) :
    σ.IsOpen ∨ ∃ raw, k = .string raw ∧ σ = .complete (.string raw) [] := by
  cases k with
  | string raw => exact .inr ⟨raw, rfl, (Option.some.inj h).symm⟩
  | _ =>
    simp only [step?, valueStep?, Option.some.injEq, reduceCtorEq] at h
    try subst h
    try simp [State.IsOpen]

/-- Only one token spells a string. -/
theorem eq_singleton_of_foldlM {ks : List Token} {raw : Text}
    (h : ks.foldlM step? (.value []) = some (.complete (.string raw) [])) :
    ks = [.string raw] := by
  cases ks with
  | nil => cases h
  | cons k ks =>
    rw [List.foldlM_cons, Option.bind_eq_bind, Option.bind_eq_some_iff] at h
    obtain ⟨σ, hσ, h⟩ := h
    rcases isOpen_or_of_step? hσ with ho | ⟨r, rfl, rfl⟩
    · have hopen := isOpen_of_foldlM ho h
      simp [State.IsOpen] at hopen
    · cases ks with
      | nil =>
        obtain rfl : r = raw := by simpa using h
        rfl
      | cons k ks => cases h

theorem length_lt_of_tokens? {u raw : Text} (h : tokens? u = some [.string raw]) :
    raw.length < u.length := by
  unfold tokens? at h
  have hle : (u.dropWhile isSpace).length ≤ u.length := (List.dropWhile_suffix _).length_le
  cases hn : u.length with
  | zero =>
    rw [hn, tokens?.go] at h
    split at h <;> cases h
  | succ n =>
    rw [hn, tokens?.go] at h
    split at h
    · cases h
    · next c s hs =>
      obtain ⟨⟨k, rest⟩, hk, h⟩ := Option.bind_eq_some_iff.1 h
      obtain ⟨ks, -, he⟩ := Option.map_eq_some_iff.1 h
      obtain ⟨rfl, -⟩ := List.cons.inj he
      have hraw := (tokenAt_of_token? hk).length_raw_lt
      rw [hs] at hle
      exact Nat.lt_of_lt_of_le hraw (hn ▸ hle)

namespace Value

/-- **A JSON text is longer than the string it denotes.** -/
theorem length_lt_of_parse? {u s : Text} (h : parse? u = some (.string s)) :
    s.length < u.length := by
  obtain ⟨t, ht, hv⟩ := Option.bind_eq_some_iff.1 h
  obtain ⟨raw, rfl, hs⟩ : ∃ raw, t = .string raw ∧ decodeString? raw = some s := by
    cases t with
    | string raw =>
      rw [ofTree?] at hv
      obtain ⟨r, hr, he⟩ := Option.map_eq_some_iff.1 hv
      obtain rfl := Value.string.inj he
      exact ⟨raw, rfl, hr⟩
    | _ => simp [ofTree?, maxDepth, Option.bind_eq_some_iff] at hv
  simp only [Tree.parse?, Option.bind_eq_bind, Option.bind_eq_some_iff] at ht
  obtain ⟨ks, hks, σ, hσ, ht⟩ := ht
  split at ht
  · obtain rfl := Option.some.inj ht
    rw [eq_singleton_of_foldlM hσ] at hks
    exact Nat.lt_of_le_of_lt (length_le_of_decodeString? hs) (length_lt_of_tokens? hks)
  · cases ht

end Value

/-! ## The ends of compact texts -/

theorem not_isBlank_of_isDigit {c : Char} (h : c.isDigit = true) : Text.isBlank c = false := by
  simp only [Char.isDigit, Bool.and_eq_true, decide_eq_true_eq, UInt32.le_iff_toNat_le] at h
  have hlow : 48 ≤ c.toNat := h.1
  have hhigh : c.toNat ≤ 57 := h.2
  unfold Text.isBlank
  simp only [Bool.or_eq_false_iff, Bool.and_eq_false_iff, decide_eq_false_iff_not,
    beq_eq_false_iff_ne]
  omega

theorem Number.eq_or_isDigit_of_mem_render {k : Int} {c : Char} (hc : c ∈ (int k).render) :
    c = '-' ∨ c.isDigit = true := by
  rw [Number.render] at hc
  split at hc
  · exact (List.mem_cons.1 hc).imp_right isDigit_of_mem_digitsOf
  · exact .inr (isDigit_of_mem_digitsOf hc)

theorem Number.not_isBlank_of_mem_render {k : Int} {c : Char} (hc : c ∈ (int k).render) :
    Text.isBlank c = false := by
  rcases eq_or_isDigit_of_mem_render hc with rfl | hd
  · decide
  · exact not_isBlank_of_isDigit hd

theorem Number.trim_render_int (k : Int) : Text.trim (int k).render = (int k).render :=
  Text.trim_of_forall fun _ => not_isBlank_of_mem_render

theorem exists_layout_eq (opening closing : Char) (gap last : Text) (xs : List Text) :
    ∃ inner, layout opening closing gap last xs = opening :: (inner ++ [closing]) := by
  cases xs with
  | nil => exact ⟨[], rfl⟩
  | cons x xs =>
    refine ⟨gap ++ x ++ xs.flatMap (fun y => ',' :: (gap ++ y)) ++ last, ?_⟩
    simp [layout]

theorem trim_layout {opening closing : Char} (ho : Text.isBlank opening = false)
    (hc : Text.isBlank closing = false) (xs : List Text) :
    Text.trim (layout opening closing [] [] xs) = layout opening closing [] [] xs := by
  obtain ⟨inner, hi⟩ := exists_layout_eq opening closing [] [] xs
  rw [hi]
  exact Text.trim_cons_append_singleton ho hc inner

theorem layout_ne_nil (opening closing : Char) (gap last : Text) (xs : List Text) :
    layout opening closing gap last xs ≠ [] := by
  obtain ⟨inner, hi⟩ := exists_layout_eq opening closing gap last xs
  rw [hi]
  exact List.cons_ne_nil _ _

namespace Value

/-- **A compact text has no white space at its ends.** -/
theorem trim_compact {q : List Text → Prop} {v : Value} (h : v.All (·.isInteger = true) q) :
    Text.trim v.compact = v.compact := by
  cases h with
  | null => decide
  | bool b => cases b <;> decide
  | number hn =>
    obtain ⟨k, rfl, -⟩ := Number.exists_of_isInteger hn
    exact Number.trim_render_int k
  | string s => exact Text.trim_cons_append_singleton (by decide) (by decide) _
  | array _ =>
    rw [compact_array]
    exact trim_layout (by decide) (by decide) _
  | object _ _ =>
    rw [compact_object]
    exact trim_layout (by decide) (by decide) _

theorem compact_ne_nil (v : Value) : v.compact ≠ [] := by
  cases v with
  | null => decide
  | bool b => cases b <;> decide
  | number n => exact n.render_ne_nil
  | string s => exact List.cons_ne_nil _ _
  | array vs =>
    rw [compact_array]
    exact layout_ne_nil _ _ _ _ _
  | object fs =>
    rw [compact_object]
    exact layout_ne_nil _ _ _ _ _

/-- A compact string is longer than the string. -/
theorem string_ne_compact (s : Text) : (string s).compact ≠ s := by
  intro he
  have hparse := parse?_compact (.string s)
  have hdepth : (string s).depth ≤ maxDepth := Nat.zero_le _
  rw [if_pos hdepth] at hparse
  have := length_lt_of_parse? hparse
  rw [he] at this
  exact Nat.lt_irrefl _ this

end Value

end SpecHarvest.Json
