import Mathlib.Data.List.Dedup
import Mathlib.Data.List.Induction
import Mathlib.Data.List.Nodup
import Mathlib.Data.List.Perm.Subperm
import SpecHarvest.Assoc

/-!
# The keys of association lists

* `nodup_ofList`: a list made by setting pairs holds each key once.
* `mem_of_mem_ofList`: and no entry but those pairs.
* `ofList_of_nodup`: pairs with distinct keys are such a list already.
* `get?_ofList_eq_some_iff`: the value of a key is that of the last of its pairs.
* `get?_filter`, `get?_erase`: a key that is left out has no value.
* `get?_of_perm`: the order of entries with distinct keys does not count.
* `keys_perm_of_subset`: as many keys as in a list that has all of them are the keys of that list.
-/

namespace SpecHarvest.Assoc

variable {κ α : Type} [DecidableEq κ]

theorem set_of_not_mem {k : κ} {m : List (κ × α)} (h : k ∉ m.map (·.1)) (v : α) :
    set k v m = m ++ [(k, v)] := by
  induction m with
  | nil => rfl
  | cons e m ih =>
    obtain ⟨l, w⟩ := e
    simp only [List.map_cons, List.mem_cons, not_or] at h
    rw [set, if_neg (Ne.symm h.1), ih h.2, List.cons_append]

/-- A new key that is set and erased again leaves nothing. -/
theorem erase_set_of_not_mem {k : κ} {m : List (κ × α)} (h : k ∉ m.map (·.1)) (v : α) :
    erase k (set k v m) = m := by
  have hm : ∀ e ∈ m, e.1 ≠ k := fun e he hk => h (hk ▸ List.mem_map_of_mem he)
  rw [set_of_not_mem h, erase, List.filter_append]
  simpa using hm

/-- Entries that are left out by their keys take away the values of these keys and no other. -/
theorem get?_filter (p : κ → Bool) (k : κ) (m : List (κ × α)) :
    get? k (m.filter fun e => p e.1) = if p k then get? k m else none := by
  induction m with
  | nil => simp [get?]
  | cons e m ih =>
    obtain ⟨l, w⟩ := e
    rw [List.filter_cons]
    by_cases hl : l = k
    · subst hl
      cases hp : p l <;> simp [hp, get?, ih]
    · cases p l <;> simp [hl, get?, ih]

/-- Erasing a key takes away its value and no other. -/
theorem get?_erase (k j : κ) (m : List (κ × α)) :
    get? j (erase k m) = if j = k then none else get? j m := by
  rw [erase, get?_filter (fun l => decide (l ≠ k)) j m]
  by_cases hj : j = k <;> simp [hj]

theorem map_fst_set_of_mem {k : κ} {m : List (κ × α)} (h : k ∈ m.map (·.1)) (v : α) :
    (set k v m).map (·.1) = m.map (·.1) := by
  induction m with
  | nil => cases h
  | cons e m ih =>
    obtain ⟨l, w⟩ := e
    by_cases hl : l = k
    · rw [set, if_pos hl]
      rfl
    · have hm : k ∈ m.map (·.1) := (List.mem_cons.1 h).resolve_left (Ne.symm hl)
      rw [set, if_neg hl, List.map_cons, ih hm, List.map_cons]

theorem nodup_set {k : κ} {m : List (κ × α)} (h : (m.map (·.1)).Nodup) (v : α) :
    ((set k v m).map (·.1)).Nodup := by
  by_cases hk : k ∈ m.map (·.1)
  · rw [map_fst_set_of_mem hk]
    exact h
  · rw [set_of_not_mem hk, List.map_append]
    refine List.nodup_append.2 ⟨h, List.nodup_singleton k, ?_⟩
    rintro a ha b hb rfl
    rw [List.map_singleton, List.mem_singleton] at hb
    rw [hb] at ha
    exact hk ha

theorem mem_of_mem_set {k : κ} {v : α} {m : List (κ × α)} {e : κ × α} (h : e ∈ set k v m) :
    e = (k, v) ∨ e ∈ m := by
  induction m with
  | nil => exact .inl (List.mem_singleton.1 h)
  | cons d m ih =>
    obtain ⟨l, w⟩ := d
    by_cases hl : l = k
    · rw [set, if_pos hl, List.mem_cons, hl] at h
      rcases h with rfl | h
      · exact .inl rfl
      · exact .inr (List.mem_cons_of_mem _ h)
    · rw [set, if_neg hl, List.mem_cons] at h
      rcases h with rfl | h
      · exact .inr List.mem_cons_self
      · exact (ih h).imp_right (List.mem_cons_of_mem _)

theorem foldl_set_induction {P : List (κ × α) → Prop} {pairs : List (κ × α)}
    (h : ∀ m, ∀ e ∈ pairs, P m → P (set e.1 e.2 m)) :
    ∀ m, P m → P (pairs.foldl (fun m e => set e.1 e.2 m) m) := by
  induction pairs with
  | nil => exact fun m hm => hm
  | cons e pairs ih =>
    intro m hm
    exact ih (fun m d hd => h m d (List.mem_cons_of_mem _ hd)) _ (h m e List.mem_cons_self hm)

/-- **Setting pairs gives distinct keys.** -/
theorem nodup_ofList (pairs : List (κ × α)) : ((ofList pairs).map (·.1)).Nodup :=
  foldl_set_induction (P := fun m => (m.map (·.1)).Nodup) (fun _ e _ hm => nodup_set hm e.2) []
    List.nodup_nil

theorem mem_of_mem_ofList {pairs : List (κ × α)} {e : κ × α} (h : e ∈ ofList pairs) :
    e ∈ pairs := by
  have hall : ∀ e ∈ ofList pairs, e ∈ pairs := by
    refine foldl_set_induction (P := fun m => ∀ e ∈ m, e ∈ pairs) ?_ [] (by simp)
    intro m d hd hm e he
    rcases mem_of_mem_set he with rfl | he
    · exact hd
    · exact hm e he
  exact hall e h

theorem ofList_concat (pairs : List (κ × α)) (e : κ × α) :
    ofList (pairs ++ [e]) = set e.1 e.2 (ofList pairs) := by
  rw [ofList, List.foldl_append]
  rfl

theorem mem_map_fst_set {k j : κ} {v : α} {m : List (κ × α)} :
    j ∈ (set k v m).map (·.1) ↔ j = k ∨ j ∈ m.map (·.1) := by
  by_cases hk : k ∈ m.map (·.1)
  · rw [map_fst_set_of_mem hk]
    exact ⟨.inr, fun h => h.elim (fun h => h ▸ hk) id⟩
  · rw [set_of_not_mem hk, List.map_append, List.mem_append, List.map_singleton,
      List.mem_singleton, or_comm]

theorem mem_map_fst_ofList {k : κ} {pairs : List (κ × α)} :
    k ∈ (ofList pairs).map (·.1) ↔ k ∈ pairs.map (·.1) := by
  induction pairs using List.reverseRecOn with
  | nil => exact Iff.rfl
  | append_singleton pairs e ih =>
    rw [ofList_concat, mem_map_fst_set, ih, List.map_append, List.mem_append, List.map_singleton,
      List.mem_singleton, or_comm]

/-- **The last pair of a key decides its value.** -/
theorem get?_ofList_eq_some_iff {k : κ} {v : α} {pairs : List (κ × α)} :
    get? k (ofList pairs) = some v ↔
      ∃ front back, pairs = front ++ (k, v) :: back ∧ k ∉ back.map (·.1) := by
  induction pairs using List.reverseRecOn with
  | nil => simp [ofList, get?]
  | append_singleton pairs e ih =>
    obtain ⟨j, w⟩ := e
    rw [ofList_concat, get?_set]
    constructor
    · intro h
      split at h
      · next hj =>
        obtain rfl := hj
        obtain rfl := Option.some.inj h
        exact ⟨pairs, [], rfl, List.not_mem_nil⟩
      · next hj =>
        obtain ⟨front, back, rfl, hk⟩ := ih.1 h
        refine ⟨front, back ++ [(j, w)], by simp, ?_⟩
        rw [List.map_append, List.mem_append, not_or]
        exact ⟨hk, by simpa using Ne.symm hj⟩
    · rintro ⟨front, back, he, hk⟩
      rcases List.eq_nil_or_concat back with rfl | ⟨back, e, rfl⟩
      · obtain ⟨-, he⟩ := List.append_inj' he rfl
        obtain ⟨rfl, rfl⟩ := Prod.mk.inj (List.singleton_inj.1 he)
        exact if_pos rfl
      · rw [List.concat_eq_append] at he hk
        rw [← List.cons_append, ← List.append_assoc] at he
        obtain ⟨rfl, hlast⟩ := List.append_inj' he rfl
        obtain rfl := List.singleton_inj.1 hlast
        rw [List.map_append, List.mem_append, not_or] at hk
        rw [if_neg fun h : j = k => hk.2 (by simp [h])]
        exact ih.2 ⟨front, back, rfl, hk.1⟩

/-- **Pairs with distinct keys are kept as they are.** -/
theorem ofList_of_nodup {pairs : List (κ × α)} (h : (pairs.map (·.1)).Nodup) :
    ofList pairs = pairs := by
  have main : ∀ m : List (κ × α), ((m ++ pairs).map (·.1)).Nodup →
      pairs.foldl (fun m e => set e.1 e.2 m) m = m ++ pairs := by
    induction pairs with
    | nil => exact fun m _ => (List.append_nil m).symm
    | cons e pairs ih =>
      intro m hm
      have hk : e.1 ∉ m.map (·.1) := by
        intro hk
        rw [List.map_append] at hm
        exact (List.nodup_append.1 hm).2.2 _ hk _ (by simp) rfl
      have hcons : m ++ e :: pairs = (m ++ [e]) ++ pairs := by simp
      rw [List.foldl_cons, set_of_not_mem hk, hcons]
      rw [hcons] at hm
      exact ih (by simpa using (List.nodup_cons.1 h).2) _ hm
  exact main [] h

/-- Setting pairs loses one only if two of them have the same key. -/
theorem length_ofList_eq_iff {pairs : List (κ × α)} :
    (ofList pairs).length = pairs.length ↔ (pairs.map (·.1)).Nodup := by
  constructor
  · intro h
    have hperm : ((ofList pairs).map (·.1)).Perm (pairs.map (·.1)).dedup :=
      (List.perm_ext_iff_of_nodup (nodup_ofList pairs) (List.nodup_dedup _)).2 fun k => by
        rw [mem_map_fst_ofList, List.mem_dedup]
    have hlength : (pairs.map (·.1)).dedup.length = (pairs.map (·.1)).length := by
      rw [← hperm.length_eq, List.length_map, List.length_map, h]
    exact List.dedup_eq_self.1 ((List.dedup_sublist _).eq_of_length hlength)
  · intro h
    rw [ofList_of_nodup h]

theorem exists_get?_of_mem {m : List (κ × α)} {k : κ} (h : k ∈ m.map (·.1)) :
    ∃ v, get? k m = some v := by
  induction m with
  | nil => cases h
  | cons e m ih =>
    obtain ⟨l, w⟩ := e
    rw [get?]
    split
    · exact ⟨w, rfl⟩
    · next hl => exact ih ((List.mem_cons.1 h).resolve_left (Ne.symm hl))

theorem mem_of_get? {m : List (κ × α)} {k : κ} {v : α} (h : get? k m = some v) : (k, v) ∈ m := by
  induction m with
  | nil => cases h
  | cons e m ih =>
    obtain ⟨l, w⟩ := e
    rw [get?] at h
    split at h
    · next hl =>
      obtain rfl := Option.some.inj h
      rw [hl]
      exact List.mem_cons_self
    · exact List.mem_cons_of_mem _ (ih h)

theorem get?_eq_some_of_mem {m : List (κ × α)} (h : (m.map (·.1)).Nodup) {k : κ} {v : α}
    (hm : (k, v) ∈ m) : get? k m = some v := by
  induction m with
  | nil => cases hm
  | cons e m ih =>
    obtain ⟨l, w⟩ := e
    rw [List.map_cons, List.nodup_cons] at h
    rcases List.mem_cons.1 hm with he | hm
    · obtain ⟨rfl, rfl⟩ := Prod.mk.inj he
      rw [get?, if_pos rfl]
    · have hne : l ≠ k := by
        rintro rfl
        exact h.1 (List.mem_map.2 ⟨_, hm, rfl⟩)
      rw [get?, if_neg hne, ih h.2 hm]

/-- The order of entries with distinct keys does not count. -/
theorem get?_of_perm {m n : List (κ × α)} (h : (m.map (·.1)).Nodup) (hp : n.Perm m) (k : κ) :
    get? k n = get? k m := by
  have hn : (n.map (·.1)).Nodup := (hp.map _).nodup_iff.2 h
  refine Option.ext fun v => ?_
  calc get? k n = some v ↔ (k, v) ∈ n := ⟨mem_of_get?, get?_eq_some_of_mem hn⟩
    _ ↔ (k, v) ∈ m := hp.mem_iff
    _ ↔ get? k m = some v := ⟨get?_eq_some_of_mem h, mem_of_get?⟩

/-- A key that is set to the value that it has changes nothing. -/
theorem set_of_get? {k : κ} {v : α} {m : List (κ × α)} (h : get? k m = some v) : set k v m = m := by
  induction m with
  | nil => cases h
  | cons e m ih =>
    obtain ⟨l, w⟩ := e
    rw [get?] at h
    rw [set]
    split at h
    · next hl => rw [if_pos hl, Option.some.inj h]
    · next hl => rw [if_neg hl, ih h]

/-- Keys that are all set to one value are kept where they are first met. -/
theorem ofList_map_const [BEq κ] [LawfulBEq κ] (ks : List κ) (v : α) :
    ofList (ks.map (·, v)) = ks.eraseDups.map (·, v) := by
  induction ks using List.reverseRecOn with
  | nil => rfl
  | append_singleton ks k ih =>
    rw [List.map_append, List.map_singleton, ofList_concat, ih, List.eraseDups_append,
      List.map_append]
    by_cases hk : k ∈ ks
    · have hmem : k ∈ (ks.eraseDups.map (·, v)).map (·.1) := by simpa using hk
      obtain ⟨w, hw⟩ := exists_get?_of_mem hmem
      obtain rfl : v = w := by
        obtain ⟨_, _, he⟩ := List.mem_map.1 (mem_of_get? hw)
        exact (Prod.mk.inj he).2
      rw [set_of_get? hw]
      simp [List.removeAll, hk]
    · rw [set_of_not_mem (by simpa using hk)]
      simp [List.removeAll, hk, List.eraseDups_cons]

theorem get?_eq_none_iff {m : List (κ × α)} {k : κ} : get? k m = none ↔ k ∉ m.map (·.1) := by
  constructor
  · intro h hk
    obtain ⟨v, hv⟩ := exists_get?_of_mem hk
    rw [h] at hv
    cases hv
  · intro h
    rw [Option.eq_none_iff_forall_ne_some]
    exact fun v hv => h (List.mem_map_of_mem (mem_of_get? hv))

/-- What holds of every entry, by key. -/
theorem forall_mem_iff {m : List (κ × α)} (h : (m.map (·.1)).Nodup) {P : κ → α → Prop} :
    (∀ e ∈ m, P e.1 e.2) ↔ ∀ k v, get? k m = some v → P k v :=
  ⟨fun hall k v hv => hall (k, v) (mem_of_get? hv),
    fun hall e he => hall e.1 e.2 (get?_eq_some_of_mem h he)⟩

omit [DecidableEq κ] in
/-- As many keys as in a list that has all of them are the keys of that list. -/
theorem keys_perm_of_subset {β : Type} {m : List (κ × α)} {n : List (κ × β)}
    (h : (m.map (·.1)).Nodup) (hsub : m.map (·.1) ⊆ n.map (·.1)) (hlength : m.length = n.length) :
    (m.map (·.1)).Perm (n.map (·.1)) := by
  refine (List.subperm_of_subset h hsub).perm_of_length_le ?_
  rw [List.length_map, List.length_map]
  exact Nat.le_of_eq hlength.symm

end SpecHarvest.Assoc
