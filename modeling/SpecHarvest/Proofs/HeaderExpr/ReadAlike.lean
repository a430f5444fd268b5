import SpecHarvest.Proofs.HeaderExpr.Chain
import SpecHarvest.Proofs.Source.Trailing
import SpecHarvest.Proofs.Text.Padding

/-!
# Header expressions with a comment after them

A header expression is read with all that stands on its line. A comment after it makes it
unreadable, so what has a comment after it is no header expression.

* `closed_of_parse?`: every expression that is read is plain characters and closed literals, where no
  comment starts. `parse?_append_trailing`: so none is read with a comment after it.
* `ReadAlike`: tables that bind the same names to expressions that are read alike. They give the same
  headers (`ReadAlike.resolve?_eq`, `ReadAlike.resolveList?_eq`).
-/

/-! ## What the readers accept -/

namespace SpecHarvest.Source.Closed

open Text HeaderExpr

variable {s : Text}

theorem of_after? {c : Char} (hc : IsPlain c) {r : Text} (h : after? [c] s = some r)
    (hr : Closed r) : Closed s := by
  rw [after?_eq_some_iff.1 h]
  exact .plain hc hr

theorem of_blanks? {r : Text} (h : blanks? s = some r) (hr : Closed r) : Closed s := by
  obtain ⟨⟨g, rfl⟩, -⟩ := blanks?_eq_some_iff.1 h
  exact .append (.of_allBlank g.2.2) hr

theorem of_word? {w r : Text} (hw : w.all isIdentChar = true) (h : word? w s = some r)
    (hr : Closed r) : Closed s := by
  rw [(word?_eq_some_iff.1 h).1]
  exact .append (.of_all_isIdentChar hw) hr

theorem of_naturals? {n : Nat} {ks : List Nat} {r : Text}
    (h : naturals? n s = some (ks, r)) (hr : Closed r) : Closed s := by
  induction n generalizing s ks with
  | zero =>
    obtain ⟨-, rfl⟩ := Prod.mk.inj (Option.some.inj h)
    exact hr
  | succ n ih =>
    simp only [naturals?, Option.bind_eq_bind, Option.bind_eq_some_iff, Option.pure_def,
      Option.some.injEq, Prod.mk.injEq, Prod.exists] at h
    obtain ⟨u, hu, k, v, hv, ks', r', hks, -, rfl⟩ := h
    obtain ⟨ds, rfl, hds⟩ := exists_of_natural? hv
    have hdigits : Closed ds :=
      .of_all_isIdentChar (List.all_eq_true.2 fun c hc => isIdentChar_of_isDigit (hds c hc))
    exact .of_blanks? hu (hdigits.append (ih hks))

theorem of_nonemptyQuoted? {raw r : Text} (h : nonemptyQuoted? s = some (raw, r))
    (hr : Closed r) : Closed s := by
  obtain ⟨-, hraw, rfl⟩ := nonemptyQuoted?_eq_some_iff.1 h
  exact .quoted hraw hr

theorem of_atEnd {u : Unit} (h : atEnd s = some u) : Closed s :=
  .of_allBlank (allBlank_of_atEnd h)

end SpecHarvest.Source.Closed

namespace SpecHarvest.HeaderExpr

open Text Source Http

variable {s : Text}

theorem closed_of_tuple? {e : HeaderExpr} (h : tuple? s = some e) : Closed s := by
  simp only [tuple?, Option.bind_eq_bind, Option.bind_eq_some_iff, Prod.exists] at h
  obtain ⟨s₁, h₁, name, s₂, h₂, s₃, h₃, value, s₄, h₄, s₅, h₅, _, hend, -⟩ := h
  have hvalue : Closed (trimStart s₃) :=
    .of_nonemptyQuoted? h₄ (.of_trimStart (.of_after? (by simp [Source.IsPlain]) h₅
      (.of_atEnd hend)))
  have hname : Closed (trimStart s₁) :=
    .of_nonemptyQuoted? h₂ (.of_trimStart (.of_after? (by simp [Source.IsPlain]) h₃
      (.of_trimStart hvalue)))
  exact .of_after? (by simp [Source.IsPlain]) h₁ (.of_trimStart hname)

theorem closed_of_stringArgument? {helper value : Text} (hw : helper.all isIdentChar = true)
    (h : stringArgument? helper s = some value) : Closed s := by
  simp only [stringArgument?, Option.bind_eq_bind, Option.bind_eq_some_iff, Prod.exists] at h
  obtain ⟨u, hu, v, hv, raw, g, hq, _, hend, -⟩ := h
  exact .of_word? hw hu (.of_blanks? hv (.of_nonemptyQuoted? hq (.of_atEnd hend)))

theorem closed_of_rangeArguments? {helper constructor : Text} {n : Nat} {ks : List Nat}
    (hw : helper.all isIdentChar = true) (hc : constructor.all isIdentChar = true)
    (h : rangeArguments? helper constructor n s = some ks) : Closed s := by
  simp only [rangeArguments?, Option.bind_eq_bind, Option.bind_eq_some_iff, Option.pure_def] at h
  obtain ⟨u, hu, v, hv, h⟩ := h
  have tail {x y r : Text} {ks' : List Nat} (hy : word? constructor (trimStart x) = some y)
      (hr : naturals? n y = some (ks', r)) (hend : Closed r) : Closed x :=
    .of_trimStart (.of_word? hc hy (.of_naturals? hr hend))
  have closing {r t : Text} {u : Unit} (ht : after? [')'] (trimStart r) = some t)
      (hend : atEnd t = some u) : Closed r :=
    .of_trimStart (.of_after? (by simp [Source.IsPlain]) ht (.of_atEnd hend))
  refine .of_word? hw hu (.of_blanks? hv ?_)
  split at h
  · simp only [Option.bind_some, Option.bind_eq_some_iff, Prod.exists] at h
    obtain ⟨y, hy, ks', r, hr, h⟩ := h
    refine .plain (by simp [Source.IsPlain]) (tail hy hr ?_)
    split at h
    · next ht =>
      obtain ⟨_, hend, -⟩ := Option.bind_eq_some_iff.1 h
      exact closing ht hend
    · cases h
  · simp only [Option.bind_some, Option.bind_eq_some_iff, Prod.exists] at h
    obtain ⟨y, hy, ks', r, hr, h⟩ := h
    refine .plain (by simp [Source.IsPlain]) (tail hy hr ?_)
    split at h
    · next ht =>
      obtain ⟨_, hend, -⟩ := Option.bind_eq_some_iff.1 h
      exact closing ht hend
    · obtain ⟨_, hend, -⟩ := Option.bind_eq_some_iff.1 h
      exact .of_atEnd hend
  · cases h

/-- **An expression that is read** is plain characters and literals. -/
theorem closed_of_parse? {e : HeaderExpr} (h : parse? s = some e) : Closed (trim s) := by
  obtain ⟨read, hmem, hread⟩ := List.exists_of_findSome?_eq_some h
  generalize trim s = s at hread
  simp only [readers, List.mem_cons, List.not_mem_nil, or_false] at hmem
  rcases hmem with rfl | rfl | rfl | rfl | rfl | rfl | rfl | rfl
  · exact closed_of_tuple? hread
  · obtain ⟨_, hv, -⟩ := Option.map_eq_some_iff.1 hread
    exact closed_of_stringArgument? (by decide) hv
  · obtain ⟨_, hv, -⟩ := Option.map_eq_some_iff.1 hread
    exact closed_of_stringArgument? (by decide) hv
  · unfold plan? at hread
    split at hread
    · next hplan =>
      rw [hplan]
      exact .of_all_isIdentChar (by decide)
    · cases hread
  · unfold rangeFromTo? at hread
    split at hread
    · next hr => exact closed_of_rangeArguments? (by decide) (by decide) hr
    · cases hread
  · unfold rangeFrom? at hread
    split at hread
    · next hr => exact closed_of_rangeArguments? (by decide) (by decide) hr
    · cases hread
  · unfold rangeWithCount? at hread
    split at hread
    · next hr => exact closed_of_rangeArguments? (by decide) (by decide) hr
    · cases hread
  · unfold binding? at hread
    split at hread
    · next hb =>
      simp only [Bool.and_eq_true] at hb
      exact .of_all_isIdentChar hb.2
    · cases hread

/-! ## Comments -/

/-- **Nothing with a comment after it** is read as a header expression. -/
theorem parse?_append_trailing (c : Text) (h : (stripFrom .code s).2 = .code) :
    parse? (s ++ trailing c) = none := by
  cases hp : parse? (s ++ trailing c) with
  | none => rfl
  | some e =>
    exact absurd (closed_of_parse? hp).of_trim.kept (kept_append_trailing_ne h)

/-! ## Tables that are read alike -/

/-- Tables that bind the same names in the same order, to expressions that are read alike. -/
def ReadAlike : Bindings → Bindings → Prop :=
  List.Forall₂ fun p q => p.1 = q.1 ∧ parse? p.2 = parse? q.2

namespace ReadAlike

variable {bindings bindings' : Bindings}

theorem refl (bindings : Bindings) : ReadAlike bindings bindings :=
  List.forall₂_same.2 fun _ _ => ⟨rfl, rfl⟩

theorem rel_get? (h : ReadAlike bindings bindings') (x : Text) :
    Option.Rel (fun e e' => parse? e = parse? e') (Assoc.get? x bindings)
      (Assoc.get? x bindings') := by
  induction h with
  | nil => exact .none
  | @cons p q _ _ hp _ ih =>
    obtain ⟨name, e⟩ := p
    obtain ⟨name', e'⟩ := q
    obtain ⟨rfl, he⟩ := hp
    rw [Assoc.get?, Assoc.get?]
    split
    · exact .some he
    · exact ih

theorem set (h : ReadAlike bindings bindings') (x : Text) {e e' : Text}
    (he : parse? e = parse? e') : ReadAlike (Assoc.set x e bindings) (Assoc.set x e' bindings') := by
  induction h with
  | nil => exact .cons ⟨rfl, he⟩ .nil
  | @cons p q _ _ hp h ih =>
    obtain ⟨name, f⟩ := p
    obtain ⟨name', f'⟩ := q
    obtain ⟨rfl, hf⟩ := hp
    rw [Assoc.set, Assoc.set]
    split
    · exact .cons ⟨rfl, he⟩ h
    · exact .cons ⟨rfl, hf⟩ ih

theorem erase (h : ReadAlike bindings bindings') (x : Text) :
    ReadAlike (Assoc.erase x bindings) (Assoc.erase x bindings') := by
  unfold Assoc.erase
  induction h with
  | nil => exact .nil
  | @cons p q _ _ hp _ ih =>
    rw [List.filter_cons, List.filter_cons, hp.1]
    split
    · exact .cons hp ih
    · exact ih

/-- **The headers of an expression** are the same under tables that are read alike. -/
theorem resolve?_eq (h : ReadAlike bindings bindings') {s' : Text} (hs : parse? s = parse? s') :
    resolve? bindings s = resolve? bindings' s' := by
  induction hn : bindings.length using Nat.strongRecOn generalizing bindings bindings' s s' with
  | ind n ih =>
    cases hp : parse? s with
    | none => rw [resolve?_of_unread hp, resolve?_of_unread (hs ▸ hp)]
    | some e =>
      cases hh : e.headers with
      | inl hs' => rw [resolve?_of_headers hp hh, resolve?_of_headers (hs ▸ hp) hh]
      | inr name =>
        obtain rfl := parse?_of_inr hh
        rw [resolve?_of_binding hp, resolve?_of_binding (hs ▸ hp)]
        rcases cases_of_rel (h.rel_get? name) with ⟨hg, hg'⟩ | ⟨e, e', hg, hg', he⟩
        · rw [hg, hg']
          rfl
        · rw [hg, hg', Option.bind_some, Option.bind_some]
          exact ih _ (hn ▸ Assoc.length_erase_lt hg) (h.erase name) he rfl

theorem resolveList?_eq (h : ReadAlike bindings bindings') (s : Text) :
    resolveList? bindings s = resolveList? bindings' s := by
  have hresolve : resolve? bindings = resolve? bindings' := funext fun _ => h.resolve?_eq rfl
  unfold resolveList?
  rw [hresolve]

end ReadAlike

end SpecHarvest.HeaderExpr
