import SpecHarvest.HeaderExpr
import SpecHarvest.Proofs.Source.Reader
import SpecHarvest.Proofs.Text.Occurrence

/-!
# Header expressions without brackets around them

* `Bare s`: a text without quotes and opening square brackets, or such a text with one literal at
  its end. `bare_of_parse?`: every expression that is read is one, unless it starts with a
  parenthesis.
* `not_bare_of_unclosed`, `Bare.not_append_unclosed`: so no expression holds a literal that is not
  closed.
-/

namespace SpecHarvest.HeaderExpr

open Text Source Http

/-- Neither a quote nor an opening square bracket. -/
def IsPlain (c : Char) : Prop := c ≠ '"' ∧ c ≠ '['

/-- Plain characters, and a literal at the end or none. -/
inductive Bare : Text → Prop
  | plain {w : Text} : (∀ c ∈ w, IsPlain c) → Bare w
  | quoted {w raw g : Text} : (∀ c ∈ w, IsPlain c) → Raw raw → allBlank g = true →
    Bare (w ++ '"' :: (raw ++ '"' :: g))

variable {s : Text} {e : HeaderExpr}

/-! ## What the readers accept -/

theorem isPlain_of_isIdentChar {c : Char} (h : isIdentChar c = true) : IsPlain c := by
  constructor <;> rintro rfl <;> cases h

theorem isPlain_of_isBlank {c : Char} (h : isBlank c = true) : IsPlain c := by
  constructor <;> rintro rfl <;> revert h <;> decide

theorem isPlain_of_allBlank {g : Text} (h : allBlank g = true) : ∀ c ∈ g, IsPlain c :=
  fun c hc => isPlain_of_isBlank (List.all_eq_true.1 h c hc)

theorem isPlain_append {w v : Text} (hw : ∀ c ∈ w, IsPlain c) (hv : ∀ c ∈ v, IsPlain c) :
    ∀ c ∈ w ++ v, IsPlain c :=
  fun c hc => (List.mem_append.1 hc).elim (hw c) (hv c)

/-- What is passed before the rest of a text is plain. -/
structure Passes (s r : Text) : Prop where
  exists_eq : ∃ w, s = w ++ r ∧ ∀ c ∈ w, IsPlain c

theorem Passes.trans {t r : Text} (h : Passes s t) (ht : Passes t r) : Passes s r := by
  obtain ⟨w, rfl, hw⟩ := h.exists_eq
  obtain ⟨v, rfl, hv⟩ := ht.exists_eq
  exact ⟨w ++ v, by simp, isPlain_append hw hv⟩

theorem passes_trimStart (s : Text) : Passes s (trimStart s) :=
  ⟨_, (takeWhile_append_trimStart s).symm, isPlain_of_allBlank (allBlank_takeWhile s)⟩

theorem passes_blanks? {r : Text} (h : blanks? s = some r) : Passes s r := by
  unfold blanks? at h
  split at h
  · next c s =>
    split at h
    · next hc =>
      obtain rfl := Option.some.inj h
      exact (Passes.mk ⟨[c], rfl, by simpa using isPlain_of_isBlank hc⟩).trans (passes_trimStart s)
    · cases h
  · cases h

theorem passes_word? {w r : Text} (hw : w.all isIdentChar = true) (h : word? w s = some r) :
    Passes s r :=
  ⟨w, (word?_eq_some_iff.1 h).1, fun c hc => isPlain_of_isIdentChar (List.all_eq_true.1 hw c hc)⟩

theorem passes_natural? {n : Nat} {r : Text} (h : natural? s = some (n, r)) : Passes s r := by
  obtain ⟨ds, rfl, hds⟩ := exists_of_natural? h
  exact ⟨ds, rfl, fun c hc => isPlain_of_isIdentChar (isIdentChar_of_isDigit (hds c hc))⟩

theorem passes_naturals? {n : Nat} {ks : List Nat} {r : Text} (h : naturals? n s = some (ks, r)) :
    Passes s r := by
  induction n generalizing s ks with
  | zero =>
    obtain ⟨-, rfl⟩ := Prod.mk.inj (Option.some.inj h)
    exact ⟨[], rfl, by simp⟩
  | succ n ih =>
    simp only [naturals?, Option.bind_eq_bind, Option.bind_eq_some_iff, Option.pure_def,
      Option.some.injEq, Prod.mk.injEq, Prod.exists] at h
    obtain ⟨u, hu, k, v, hv, ks', r', hr, -, rfl⟩ := h
    exact ((passes_blanks? hu).trans (passes_natural? hv)).trans (ih hr)

theorem allBlank_of_atEnd {u : Unit} (h : atEnd s = some u) : allBlank s = true := by
  unfold atEnd at h
  split at h
  · assumption
  · cases h

theorem Bare.of_passes {r : Text} (h : Passes s r) (hr : allBlank r = true) : Bare s := by
  obtain ⟨w, rfl, hw⟩ := h.exists_eq
  exact .plain (isPlain_append hw (isPlain_of_allBlank hr))

theorem bare_of_stringArgument? {helper value : Text} (hw : helper.all isIdentChar = true)
    (h : stringArgument? helper s = some value) : Bare s := by
  simp only [stringArgument?, Option.bind_eq_bind, Option.bind_eq_some_iff, Option.pure_def,
    Prod.exists] at h
  obtain ⟨u, hu, v, hv, raw, g, hq, _, hend, -⟩ := h
  obtain ⟨w, rfl, hplain⟩ := ((passes_word? hw hu).trans (passes_blanks? hv)).exists_eq
  obtain ⟨-, hraw, rfl⟩ := nonemptyQuoted?_eq_some_iff.1 hq
  exact .quoted hplain hraw (allBlank_of_atEnd hend)

theorem bare_of_rangeArguments? {helper constructor : Text} {n : Nat} {ks : List Nat}
    (hw : helper.all isIdentChar = true) (hc : constructor.all isIdentChar = true)
    (h : rangeArguments? helper constructor n s = some ks) : Bare s := by
  simp only [rangeArguments?, Option.bind_eq_bind, Option.bind_eq_some_iff, Option.pure_def] at h
  obtain ⟨u, hu, v, hv, h⟩ := h
  have tail {c : Char} {x y r : Text} {ks' : List Nat} (hv : blanks? u = some (c :: x))
      (hplain : IsPlain c) (hy : word? constructor (trimStart x) = some y)
      (hr : naturals? n y = some (ks', r)) : Passes s r :=
    (passes_word? hw hu).trans <| (passes_blanks? hv).trans <|
      (Passes.mk ⟨[c], rfl, by simpa using hplain⟩).trans <| (passes_trimStart x).trans <|
        (passes_word? hc hy).trans (passes_naturals? hr)
  have bare_of_closed {r t : Text} {u : Unit} (hs : Passes s r)
      (ht : after? [')'] (trimStart r) = some t) (hend : atEnd t = some u) : Bare s :=
    .of_passes (hs.trans <| (passes_trimStart r).trans
      ⟨[')'], after?_eq_some_iff.1 ht, by simp [IsPlain]⟩) (allBlank_of_atEnd hend)
  split at h
  · simp only [Option.bind_some, Option.bind_eq_some_iff, Prod.exists] at h
    obtain ⟨y, hy, ks', r, hr, h⟩ := h
    have hs := tail hv (by simp [IsPlain]) hy hr
    split at h
    · next ht =>
      obtain ⟨_, hend, -⟩ := Option.bind_eq_some_iff.1 h
      exact bare_of_closed hs ht hend
    · cases h
  · simp only [Option.bind_some, Option.bind_eq_some_iff, Prod.exists] at h
    obtain ⟨y, hy, ks', r, hr, h⟩ := h
    have hs := tail hv (by simp [IsPlain]) hy hr
    split at h
    · next ht =>
      obtain ⟨_, hend, -⟩ := Option.bind_eq_some_iff.1 h
      exact bare_of_closed hs ht hend
    · obtain ⟨_, hend, -⟩ := Option.bind_eq_some_iff.1 h
      exact .of_passes hs (allBlank_of_atEnd hend)
  · cases h

/-- **An expression that is read is bare**, unless it starts with a parenthesis. -/
theorem bare_of_parse? (h : parse? s = some e) (hs : ∀ r, trim s ≠ '(' :: r) : Bare (trim s) := by
  obtain ⟨read, hmem, hread⟩ := List.exists_of_findSome?_eq_some h
  generalize trim s = s at hs hread
  simp only [readers, List.mem_cons, List.not_mem_nil, or_false] at hmem
  rcases hmem with rfl | rfl | rfl | rfl | rfl | rfl | rfl | rfl
  · obtain ⟨r, hr, -⟩ := Option.bind_eq_some_iff.1 hread
    exact absurd (after?_eq_some_iff.1 hr) (hs r)
  · obtain ⟨_, hv, -⟩ := Option.map_eq_some_iff.1 hread
    exact bare_of_stringArgument? (by decide) hv
  · obtain ⟨_, hv, -⟩ := Option.map_eq_some_iff.1 hread
    exact bare_of_stringArgument? (by decide) hv
  · unfold plan? at hread
    split at hread
    · next hplan =>
      rw [hplan]
      exact .plain (by simp [IsPlain])
    · cases hread
  · unfold rangeFromTo? at hread
    split at hread
    · next hr => exact bare_of_rangeArguments? (by decide) (by decide) hr
    · cases hread
  · unfold rangeFrom? at hread
    split at hread
    · next hr => exact bare_of_rangeArguments? (by decide) (by decide) hr
    · cases hread
  · unfold rangeWithCount? at hread
    split at hread
    · next hr => exact bare_of_rangeArguments? (by decide) (by decide) hr
    · cases hread
  · unfold binding? at hread
    split at hread
    · next hb =>
      simp only [Bool.and_eq_true, List.all_eq_true] at hb
      exact .plain fun c hc => isPlain_of_isIdentChar (hb.2 c hc)
    · cases hread

theorem Bare.of_trim (h : Bare (trim s)) : Bare s := by
  have hstart := takeWhile_append_trimStart s
  obtain ⟨g₂, hend, hg₂⟩ := exists_trimEnd_append (trimStart s)
  have hg₁ := isPlain_of_allBlank (allBlank_takeWhile s)
  have hs : s = s.takeWhile isBlank ++ (trim s ++ g₂) := by rw [trim, ← hend, hstart]
  rw [hs]
  generalize trim s = u at h
  cases h with
  | plain hw =>
    exact .plain (isPlain_append hg₁ (isPlain_append hw (isPlain_of_allBlank hg₂)))
  | @quoted w raw g hw hraw hg =>
    have happ : s.takeWhile isBlank ++ (w ++ '"' :: (raw ++ '"' :: g) ++ g₂) =
        (s.takeWhile isBlank ++ w) ++ '"' :: (raw ++ '"' :: (g ++ g₂)) := by simp
    have hgap : allBlank (g ++ g₂) = true := by
      rw [allBlank] at hg hg₂ ⊢
      rw [List.all_append, hg, hg₂, Bool.and_self]
    rw [happ]
    exact .quoted (isPlain_append hg₁ hw) hraw hgap

/-- What has headers is bare, unless it starts with a bracket. -/
theorem bare_of_resolveList? {bindings : Bindings} {c : Char} {hs : List Header}
    (hc : isBlank c = false) (hb : c ≠ '[' ∧ c ≠ '(')
    (h : resolveList? bindings (c :: s) = some hs) : Bare (c :: s) := by
  have htrim : trim (c :: s) = c :: trimEnd s := by
    rw [trim, trimStart_cons_of_not_blank hc]
    exact trimEnd_append_of_forall (x := [c]) (by simpa using hc) s
  rw [resolveList?] at h
  split at h
  · next heq =>
    rw [htrim] at heq
    exact absurd (List.cons.inj heq).1 hb.1
  · rw [resolve?] at h
    cases hp : parse? (trim (c :: s)) with
    | none => simp [hp] at h
    | some e =>
      have hbare := bare_of_parse? hp fun r => by
        rw [trim_trim, htrim]
        exact fun heq => hb.2 (List.cons.inj heq).1
      rw [trim_trim] at hbare
      exact hbare.of_trim

/-! ## Quotes that nothing reads -/

theorem eq_of_append_quote {w v x y : Text} (hw : '"' ∉ w) (hv : '"' ∉ v)
    (h : w ++ '"' :: x = v ++ '"' :: y) : w = v ∧ x = y := by
  have hcut : cut? ['"'] (w ++ '"' :: x) = some (w, x) := cut?_singleton_eq_some_iff.2 ⟨rfl, hw⟩
  rw [h, cut?_singleton_eq_some_iff.2 ⟨rfl, hv⟩] at hcut
  obtain ⟨rfl, rfl⟩ := Prod.mk.inj (Option.some.inj hcut)
  exact ⟨rfl, rfl⟩

theorem quote_not_mem {w : Text} (hw : ∀ c ∈ w, IsPlain c) : '"' ∉ w := fun h => (hw _ h).1 rfl

/-- The first quote of a bare expression opens its literal. -/
theorem Bare.exists_of_quote {w x : Text} (h : Bare (w ++ '"' :: x)) (hw : '"' ∉ w) :
    ∃ raw g, Raw raw ∧ allBlank g = true ∧ x = raw ++ '"' :: g := by
  generalize hs : w ++ '"' :: x = s at h
  cases h with
  | plain hplain =>
    have hmem : '"' ∈ s := hs ▸ by simp
    exact absurd rfl (hplain '"' hmem).1
  | quoted hv hraw hg => exact ⟨_, _, hraw, hg, (eq_of_append_quote hw (quote_not_mem hv) hs).2⟩

/-- A square bracket stands in the literal. -/
theorem Bare.exists_of_bracket {f t : Text} (h : Bare (f ++ '[' :: t)) :
    ∃ w x, f = w ++ '"' :: x ∧ '"' ∉ w ∧ closeQuote? x = none := by
  generalize hs : f ++ '[' :: t = s at h
  cases h with
  | plain hw =>
    have hmem : '[' ∈ s := hs ▸ by simp
    exact absurd rfl (hw '[' hmem).2
  | @quoted w raw g hw hraw hg =>
    rcases List.append_eq_append_iff.1 hs with ⟨a, rfl, ha⟩ | ⟨a, rfl, ha⟩
    · cases a with
      | nil => simp at ha
      | cons d a =>
        obtain ⟨rfl, -⟩ := List.cons.inj ha
        exact absurd rfl (hw '[' (by simp)).2
    · cases a with
      | nil => simp at ha
      | cons d x =>
        rw [List.cons_append, List.cons.injEq] at ha
        obtain ⟨rfl, ha⟩ := ha
        have hbracket : ¬ ('[' :: t) <:+ g := fun hsuffix => absurd
          (List.all_eq_true.1 hg '[' (hsuffix.subset List.mem_cons_self)) (by decide)
        exact ⟨w, x, rfl, quote_not_mem hw, hraw.closeQuote?_eq_none ha hbracket⟩

/-- A literal that is not closed is read by nothing. -/
theorem not_bare_of_unclosed {w x : Text} (hw : '"' ∉ w) (hx : closeQuote? x = none) :
    ¬Bare (w ++ '"' :: x) := by
  intro h
  obtain ⟨raw, g, hraw, -, rfl⟩ := h.exists_of_quote hw
  rw [hraw.closeQuote?] at hx
  cases hx

/-- After a bare expression no literal is read that is not closed. -/
theorem Bare.not_append_unclosed {x : Text} (h : Bare s) (hx : closeQuote? x = none) :
    ¬Bare (s ++ ' ' :: '"' :: x) := by
  cases h with
  | plain hw =>
    have hquote : '"' ∉ s ++ [' '] := by
      simpa using quote_not_mem hw
    rw [show s ++ ' ' :: '"' :: x = (s ++ [' ']) ++ '"' :: x by simp]
    exact not_bare_of_unclosed hquote hx
  | @quoted w raw g hw hraw _ =>
    intro h
    rw [List.append_assoc, List.cons_append, List.append_assoc, List.cons_append] at h
    obtain ⟨raw', g', hraw', hg', heq⟩ := h.exists_of_quote (quote_not_mem hw)
    obtain ⟨-, rfl⟩ := hraw.append_inj hraw' heq
    simp [allBlank, show isBlank '"' = false by decide] at hg'

end SpecHarvest.HeaderExpr
