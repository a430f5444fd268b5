import SpecHarvest.Proofs.HeaderExpr.Named
import SpecHarvest.Proofs.HeaderExpr.Written

/-!
# Chains of names

A name may be bound to a name again, and bindings may lead in a circle. A chain is followed until it
settles: at an expression that needs no look-up, or where there is no going on.

* `Follows bindings s names e`: the expression `s` leads to `e`, along `names`.
* `Settles bindings s r`: the chain of `s` comes to its end, with the headers `r` or with none.
* `Follows.length_le`: a chain that meets no name twice is no longer than the table.
* `resolve?_of_get?`: a name has the headers of what it is bound to.
* `resolve?_eq_iff_settles`: every chain settles, and the headers of an expression are what its
  chain settles on. Bindings that the chain does not ask for do not matter.
-/

namespace SpecHarvest.HeaderExpr

open Text Source Http

/-- The expression `s` leads to the expression `e` by looking up `names`, the last one first. -/
inductive Follows (bindings : Bindings) (s : Text) : List Text → Text → Prop
  | refl : Follows bindings s [] s
  | step {names : List Text} {e name bound : Text} : Follows bindings s names e →
    parse? e = some (.binding name) → Assoc.get? name bindings = some bound →
    Follows bindings s (name :: names) bound

/-- How a chain ends, as long as it has met no name twice. -/
inductive Settles (bindings : Bindings) (s : Text) : Option (List Header) → Prop
  /-- It reaches an expression that is no name. -/
  | headers {names : List Text} {e : Text} {h : HeaderExpr} {hs : List Header} :
    Follows bindings s names e → names.Nodup → parse? e = some h → h.headers = .inl hs →
    Settles bindings s (some hs)
  /-- It reaches what is no expression. -/
  | unread {names : List Text} {e : Text} : Follows bindings s names e → names.Nodup →
    parse? e = none → Settles bindings s none
  /-- It reaches a name that is bound to nothing. -/
  | unbound {names : List Text} {e name : Text} : Follows bindings s names e → names.Nodup →
    parse? e = some (.binding name) → Assoc.get? name bindings = none → Settles bindings s none
  /-- It comes back to a name. -/
  | again {names : List Text} {e name : Text} : Follows bindings s names e → names.Nodup →
    parse? e = some (.binding name) → name ∈ names → Settles bindings s none

variable {bindings bindings' : Bindings} {s e name : Text} {names : List Text}
  {r : Option (List Header)}

/-! ## Following a chain -/

/-- A chain that meets no name twice is no longer than the table. -/
theorem Follows.length_le (h : Follows bindings s names e) (hn : names.Nodup) :
    names.length ≤ bindings.length := by
  have hsub : names ⊆ bindings.map (·.1) := by
    clear hn
    induction h with
    | refl => exact List.nil_subset _
    | step _ _ hget ih =>
      exact List.cons_subset.2 ⟨List.mem_map_of_mem (Assoc.mem_of_get? hget), ih⟩
  have hle := hn.length_le_of_subset hsub
  rwa [List.length_map] at hle

/-- The bindings without those of some names. -/
def without (names : List Text) (bindings : Bindings) : Bindings :=
  names.foldr Assoc.erase bindings

theorem get?_without (names : List Text) (x : Text) :
    Assoc.get? x (without names bindings) =
      if x ∈ names then none else Assoc.get? x bindings := by
  induction names with
  | nil => simp [without]
  | cons name names ih =>
    have hcons : without (name :: names) bindings = Assoc.erase name (without names bindings) := rfl
    rw [hcons, Assoc.get?_erase, ih]
    by_cases hx : x = name <;> simp [hx]

/-- The names that a chain has met are out of the table. -/
theorem Follows.resolve?_eq (h : Follows bindings s names e) (hn : names.Nodup) :
    resolve? bindings s = resolve? (without names bindings) e := by
  induction h with
  | refl => rfl
  | step _ hp hget ih =>
    rw [List.nodup_cons] at hn
    rw [ih hn.2, resolve?_of_binding hp, get?_without, if_neg hn.1, hget, Option.bind_some]
    rfl

/-! ## The end of a chain -/

theorem resolve?_of_unread (hp : parse? e = none) : resolve? bindings e = none := by
  rw [resolve?]
  simp only [hp]

/-- **A chain that settles decides the headers.** -/
theorem Settles.resolve?_eq (h : Settles bindings s r) : resolve? bindings s = r := by
  cases h with
  | headers hf hn hp hh => rw [hf.resolve?_eq hn, resolve?_of_headers hp hh]
  | unread hf hn hp => rw [hf.resolve?_eq hn, resolve?_of_unread hp]
  | unbound hf hn hp hget =>
    rw [hf.resolve?_eq hn, resolve?_of_binding hp, get?_without, hget, ite_self, Option.bind_none]
  | again hf hn hp hmem =>
    rw [hf.resolve?_eq hn, resolve?_of_binding hp, get?_without, if_pos hmem, Option.bind_none]

/-- An expression that needs a look-up is a name. -/
theorem parse?_of_inr {h : HeaderExpr} (hh : h.headers = .inr name) : h = .binding name := by
  cases h with
  | binding x => rw [Sum.inr.inj hh]
  | _ => cases hh

/-- A chain either has come to its end or takes one more step. -/
theorem Follows.settles_or_step (h : Follows bindings s names e) (hn : names.Nodup) :
    (∃ r, Settles bindings s r) ∨
      ∃ name bound, Follows bindings s (name :: names) bound ∧ (name :: names).Nodup := by
  cases hp : parse? e with
  | none => exact .inl ⟨none, .unread h hn hp⟩
  | some p =>
    cases hh : p.headers with
    | inl hs => exact .inl ⟨some hs, .headers h hn hp hh⟩
    | inr name =>
      rw [parse?_of_inr hh] at hp
      by_cases hmem : name ∈ names
      · exact .inl ⟨none, .again h hn hp hmem⟩
      · cases hget : Assoc.get? name bindings with
        | none => exact .inl ⟨none, .unbound h hn hp hget⟩
        | some bound => exact .inr ⟨name, bound, .step h hp hget, List.nodup_cons.2 ⟨hmem, hn⟩⟩

/-- **Every chain settles**: the names that it can still meet become fewer with each step. -/
theorem Follows.exists_settles (h : Follows bindings s names e) (hn : names.Nodup) :
    ∃ r, Settles bindings s r := by
  generalize hk : bindings.length - names.length = k
  induction k using Nat.strongRecOn generalizing names e with
  | ind k ih =>
    rcases h.settles_or_step hn with hsettles | ⟨name, bound, hstep, hnodup⟩
    · exact hsettles
    · have hle := hstep.length_le hnodup
      rw [List.length_cons] at hle
      exact ih _ (by rw [List.length_cons]; omega) hstep hnodup rfl

/-! ## A name and what it is bound to -/

theorem Follows.trans {names' : List Text} {e' : Text} (h : Follows bindings s names e)
    (h' : Follows bindings e names' e') : Follows bindings s (names' ++ names) e' := by
  induction h' with
  | refl => exact h
  | step _ hp hget ih => exact .step ih hp hget

/-- What a chain has reached is told by the number of its steps. -/
theorem Follows.eq_of_length {names' : List Text} {e' : Text} (h : Follows bindings s names e)
    (h' : Follows bindings s names' e') (hl : names'.length = names.length) : e' = e := by
  induction h generalizing names' e' with
  | refl =>
    obtain rfl := List.eq_nil_of_length_eq_zero hl
    cases h'
    rfl
  | step _ hp hget ih =>
    cases h' with
    | refl => cases hl
    | step h' hp' hget' =>
      obtain rfl := ih h' (Nat.succ_inj.1 hl)
      obtain rfl := HeaderExpr.binding.inj (Option.some.inj (hp'.symm.trans hp))
      exact Option.some.inj (hget'.symm.trans hget)

/-- A chain does not go on from an expression that is no name. -/
theorem Follows.length_le_of_headers {names' : List Text} {e' : Text} {p : HeaderExpr}
    {hs : List Header} (h : Follows bindings s names e) (hp : parse? e = some p)
    (hh : p.headers = .inl hs) (h' : Follows bindings s names' e') :
    names'.length ≤ names.length := by
  induction h' with
  | refl => exact Nat.zero_le _
  | @step names' e' name bound h' hp' _ ih =>
    refine Nat.lt_of_le_of_ne ih fun hl => ?_
    obtain rfl := h.eq_of_length h' hl
    obtain rfl := Option.some.inj (hp'.symm.trans hp)
    cases hh

/-- A chain that has met a name has reached what the name is bound to. -/
theorem Follows.exists_of_mem {x bound : Text} (h : Follows bindings s names e) (hx : x ∈ names)
    (hget : Assoc.get? x bindings = some bound) :
    ∃ names', Follows bindings s (x :: names') bound := by
  induction h with
  | refl => cases hx
  | @step names e name bound' h hp hget' ih =>
    rcases List.mem_cons.1 hx with rfl | hx
    · obtain rfl := Option.some.inj (hget.symm.trans hget')
      exact ⟨names, .step h hp hget⟩
    · exact ih hx

/-- From what a name is bound to no chain comes to an end over that name. -/
theorem Follows.not_mem_of_headers {x : Text} {p : HeaderExpr} {hs : List Header}
    (h : Follows bindings s names e) (hp : parse? e = some p) (hh : p.headers = .inl hs)
    (hget : Assoc.get? x bindings = some s) : x ∉ names := by
  intro hx
  -- the chain comes round to `s`, and could go round once more before it ends
  obtain ⟨names', hback⟩ := h.exists_of_mem hx hget
  have hle := h.length_le_of_headers hp hh (hback.trans h)
  rw [List.length_append, List.length_cons] at hle
  omega

theorem Follows.of_erase {x : Text} (h : Follows (Assoc.erase x bindings) s names e) :
    Follows bindings s names e := by
  induction h with
  | refl => exact .refl
  | step _ hp hget ih =>
    rw [Assoc.get?_erase] at hget
    split at hget
    · cases hget
    · exact .step ih hp hget

theorem exists_follows_of_resolve? {hs : List Header} (h : resolve? bindings s = some hs) :
    ∃ names e p, Follows bindings s names e ∧ names.Nodup ∧ parse? e = some p ∧
      p.headers = .inl hs := by
  have hstart : Follows bindings s [] s := .refl
  obtain ⟨r, hr⟩ := hstart.exists_settles List.nodup_nil
  rw [hr.resolve?_eq] at h
  subst h
  cases hr with
  | headers hf hn hp hh => exact ⟨_, _, _, hf, hn, hp, hh⟩

/-- **A name has the headers of what it is bound to**, under the same bindings. -/
theorem resolve?_of_get? {x : Text} (hx : parse? s = some (.binding x))
    (hget : Assoc.get? x bindings = some e) : resolve? bindings s = resolve? bindings e := by
  refine Option.ext fun hs => ⟨fun h => ?_, fun h => ?_⟩
  · rw [resolve?_of_binding hx, hget, Option.bind_some] at h
    obtain ⟨names, e', p, hf, hn, hp, hh⟩ := exists_follows_of_resolve? h
    exact (Settles.headers hf.of_erase hn hp hh).resolve?_eq
  · obtain ⟨names, e', p, hf, hn, hp, hh⟩ := exists_follows_of_resolve? h
    have hstep : Follows bindings s [x] e := .step .refl hx hget
    have hnodup : (names ++ [x]).Nodup := by
      rw [← List.concat_eq_append, List.nodup_concat]
      exact ⟨hf.not_mem_of_headers hp hh hget, hn⟩
    exact (Settles.headers (hstep.trans hf) hnodup hp hh).resolve?_eq

/-! ## Other bindings -/

/-- The chain of an expression asks for a name. -/
def Asks (bindings : Bindings) (s name : Text) : Prop :=
  ∃ names e, Follows bindings s names e ∧ parse? e = some (.binding name)

theorem Follows.congr (hb : ∀ x, Asks bindings s x → Assoc.get? x bindings' = Assoc.get? x bindings)
    (h : Follows bindings s names e) : Follows bindings' s names e := by
  induction h with
  | refl => exact .refl
  | step hf hp hget ih => exact .step ih hp ((hb _ ⟨_, _, hf, hp⟩).trans hget)

theorem Settles.congr (hb : ∀ x, Asks bindings s x → Assoc.get? x bindings' = Assoc.get? x bindings)
    (h : Settles bindings s r) : Settles bindings' s r := by
  cases h with
  | headers hf hn hp hh => exact .headers (hf.congr hb) hn hp hh
  | unread hf hn hp => exact .unread (hf.congr hb) hn hp
  | unbound hf hn hp hget =>
    exact .unbound (hf.congr hb) hn hp ((hb _ ⟨_, _, hf, hp⟩).trans hget)
  | again hf hn hp hmem => exact .again (hf.congr hb) hn hp hmem

/-- **The headers of an expression are what its chain settles on**, in any table, and every chain
settles: it meets no more names than the table has before it comes back to one. Tables that agree on
what the chain asks for give the same headers. -/
theorem resolve?_eq_iff_settles (bindings : Bindings) (s : Text) :
    (∀ r, resolve? bindings s = r ↔ Settles bindings s r) ∧
      (∀ names e, Follows bindings s names e → names.Nodup → names.length ≤ bindings.length) ∧
      ∀ bindings' : Bindings,
        (∀ x, Asks bindings s x → Assoc.get? x bindings' = Assoc.get? x bindings) →
          resolve? bindings' s = resolve? bindings s := by
  have hstart : Follows bindings s [] s := .refl
  obtain ⟨r, hr⟩ := hstart.exists_settles List.nodup_nil
  refine ⟨fun r' => ⟨?_, Settles.resolve?_eq⟩, fun _ _ => Follows.length_le, fun bindings' hb => ?_⟩
  · rintro rfl
    rwa [hr.resolve?_eq]
  · rw [hr.resolve?_eq, (hr.congr hb).resolve?_eq]

/-- Two names that are bound to each other, one that leads to them, and one that does not. -/
def loopingBindings : Bindings :=
  [("a".toList, "b".toList), ("b".toList, " a".toList), ("tail".toList, "a".toList),
    ("csv".toList, "acceptHdrs \"text/csv\"".toList)]

/-- The chain of `tail` runs into the circle, and asks for nothing else. -/
theorem Follows.of_tail {x e : Text} {names : List Text}
    (h : Follows loopingBindings "tail".toList names e) (hp : parse? e = some (.binding x)) :
    x ∈ ["tail".toList, "a".toList, "b".toList] := by
  have hends : e ∈ ["tail".toList, "a".toList, "b".toList, " a".toList] := by
    clear hp
    induction h with
    | refl => decide
    | step _ hp hget ih =>
      simp only [List.mem_cons, List.not_mem_nil, or_false] at ih
      rcases ih with rfl | rfl | rfl | rfl <;> cases hp <;> cases hget <;> decide
  simp only [List.mem_cons, List.not_mem_nil, or_false] at hends
  rcases hends with rfl | rfl | rfl | rfl <;> cases hp <;> decide

theorem resolve?_eq_iff_settles_loop :
    Follows loopingBindings "tail".toList ["b".toList, "a".toList, "tail".toList] " a".toList ∧
    ["b".toList, "a".toList, "tail".toList].Nodup ∧
    ["b".toList, "a".toList, "tail".toList].length ≤ loopingBindings.length ∧
    resolve? loopingBindings "tail".toList = none ∧
    (∀ x, Asks loopingBindings "tail".toList x →
      Assoc.get? x (Assoc.set "csv".toList "planHdr".toList loopingBindings) =
        Assoc.get? x loopingBindings) ∧
    resolve? (Assoc.set "csv".toList "planHdr".toList loopingBindings) "tail".toList =
      resolve? loopingBindings "tail".toList := by
  obtain ⟨hsettles, hlength, hcongr⟩ := resolve?_eq_iff_settles loopingBindings "tail".toList
  have hfollows : Follows loopingBindings "tail".toList
      ["b".toList, "a".toList, "tail".toList] " a".toList :=
    .step (.step (.step .refl rfl rfl) rfl rfl) rfl rfl
  have hnodup : ["b".toList, "a".toList, "tail".toList].Nodup := by decide
  have hback : parse? " a".toList = some (.binding "a".toList) := rfl
  have hasks : ∀ x, Asks loopingBindings "tail".toList x →
      Assoc.get? x (Assoc.set "csv".toList "planHdr".toList loopingBindings) =
        Assoc.get? x loopingBindings := by
    rintro x ⟨names, e, hf, hp⟩
    have hx := hf.of_tail hp
    simp only [List.mem_cons, List.not_mem_nil, or_false] at hx
    rcases hx with rfl | rfl | rfl <;> decide
  exact ⟨hfollows, hnodup, hlength _ _ hfollows hnodup,
    (hsettles none).2 (.again hfollows hnodup hback (by decide)), hasks, hcongr _ hasks⟩

end SpecHarvest.HeaderExpr
