import SpecHarvest.Proofs.Source.Keyword
import SpecHarvest.RequestExpr

/-!
# The request expression of a text

A text may hold several request expressions. `RequestExpr.find?` takes the forms in a fixed order,
each through the whole text, so that the form counts before the place.

* `Form.search?` reads one form; the readers of `RequestExpr` are these (`get?_eq_search?` and so
  on).
* `Chosen s f front e`: `e` is of the form `f`, stands in `s` after `front`, and is what the text
  states: no expression of the form can be read before, and none of an earlier form anywhere
  (`find?_eq_some_iff`).
* `Chosen.of_append`: an expression chosen in a text stays chosen without a part of the text before
  it.
-/

namespace SpecHarvest.RequestExpr

open Text Source

/-! ## The forms -/

/-- The forms of request expressions. -/
inductive Form where
  | get
  | post
  | general
  deriving DecidableEq, Repr

namespace Form

/-- The keyword of a form. -/
def keyword : Form → Text
  | get => "get".toList
  | post => "post".toList
  | general => "request".toList

/-- An expression of a form, read right after its keyword. -/
def after? : Form → Text → Option RequestExpr
  | get, s => do
    let s ← blanks? s
    let (path, _) ← quoted? s
    return .get path
  | post, s => do
    let s ← blanks? s
    let (path, s) ← quoted? s
    return .post path (← lastExpr? s)
  | general, s => do
    let s ← blanks? s
    let (method, s) ← identifier? s
    let (path, s) ← quoted? (← blanks? s)
    return .general method path (← lastExpr? s)

/-- The form of an expression. -/
def ofExpr : RequestExpr → Form
  | .get _ => get
  | .post _ _ => post
  | .general _ _ _ => general

/-- The forms that are tried before a form. -/
def earlier : Form → List Form
  | get => []
  | post => [get]
  | general => [get, post]

/-- The first expression of a form that a text holds. -/
def search? (f : Form) (s : Text) : Option RequestExpr :=
  (afterKeyword f.keyword none s).findSome? f.after?

theorem isBlank_keyword (f : Form) : ∀ c ∈ f.keyword, isBlank c = false := by
  have h : f.keyword.all (!isBlank ·) = true := by cases f <;> decide
  simpa using List.all_eq_true.1 h

theorem exists_keyword_eq_cons (f : Form) : ∃ d w, f.keyword = d :: w ∧ isBlank d = false := by
  cases f
  · exact ⟨'g', _, rfl, by decide⟩
  · exact ⟨'p', _, rfl, by decide⟩
  · exact ⟨'r', _, rfl, by decide⟩

theorem exists_blank_of_after? {f : Form} {tail : Text} {e : RequestExpr}
    (h : f.after? tail = some e) : ∃ c r, tail = c :: r ∧ isBlank c = true := by
  cases tail with
  | nil => cases f <;> simp [after?, blanks?] at h
  | cons c r =>
    refine ⟨c, r, rfl, ?_⟩
    cases hc : isBlank c with
    | true => rfl
    | false => cases f <;> simp [after?, blanks?, hc] at h

theorem ofExpr_eq_of_after? {f : Form} {tail : Text} {e : RequestExpr}
    (h : f.after? tail = some e) : ofExpr e = f := by
  cases f
  all_goals
    simp only [after?, Option.bind_eq_bind, Option.bind_eq_some_iff, Option.pure_def,
      Option.some.injEq, Prod.exists] at h
  · obtain ⟨_, _, _, _, _, rfl⟩ := h
    rfl
  · obtain ⟨_, _, _, _, _, _, _, rfl⟩ := h
    rfl
  · obtain ⟨_, _, _, _, _, _, _, _, _, _, _, _, rfl⟩ := h
    rfl

end Form

/-- The method that an expression names. -/
def method? : RequestExpr → Option Http.Method
  | .get _ => some .get
  | .post _ _ => some .post
  | .general method _ _ => Http.Method.ofName? (Http.Method.nameOf method)

theorem method?_of_resolve? {bindings : Bindings} {e : RequestExpr} {r : Request}
    (h : e.resolve? bindings = some r) : e.method? = some r.method := by
  cases e
  all_goals
    simp only [resolve?, Option.bind_eq_bind, Option.bind_eq_some_iff, Option.pure_def,
      Option.some.injEq, Prod.exists] at h
  case get => rw [← h]; rfl
  case post =>
    obtain ⟨_, -, rfl⟩ := h
    rfl
  case general =>
    obtain ⟨_, hm, _, _, -, _, -, rfl⟩ := h
    exact hm

theorem findSome?_argumentsOf {α : Type} (word s : Text) (read : Text → Option α) :
    (argumentsOf word s).findSome? read =
      (afterKeyword word none s).findSome? fun t => (blanks? t).bind read := by
  rw [argumentsOf]
  induction afterKeyword word none s with
  | nil => rfl
  | cons t ts ih =>
    rw [List.filterMap_cons, List.findSome?_cons]
    cases blanks? t with
    | none => simpa using ih
    | some u => rw [List.findSome?_cons, ih]; rfl

theorem get?_eq_search? (s : Text) : get? s = Form.get.search? s := findSome?_argumentsOf _ s _

theorem post?_eq_search? (s : Text) : post? s = Form.post.search? s := findSome?_argumentsOf _ s _

theorem general?_eq_search? (s : Text) : general? s = Form.general.search? s :=
  findSome?_argumentsOf _ s _

/-! ## The choice among the expressions -/

theorem find?_eq_or (s : Text) : find? s =
    (Form.get.search? s).or ((Form.post.search? s).or (Form.general.search? s)) := by
  simp only [find?, readers, List.findSome?_cons, List.findSome?_nil, get?_eq_search?,
    post?_eq_search?, general?_eq_search?]
  cases Form.get.search? s <;> cases Form.post.search? s <;> cases Form.general.search? s <;> rfl

theorem find?_eq_some_iff_search? {s : Text} {e : RequestExpr} : find? s = some e ↔
    ∃ f : Form, f.search? s = some e ∧ ∀ g ∈ f.earlier, g.search? s = none := by
  rw [find?_eq_or]
  constructor
  · intro h
    rcases Option.or_eq_some_iff.1 h with h | ⟨hg, h⟩
    · exact ⟨.get, h, by simp [Form.earlier]⟩
    rcases Option.or_eq_some_iff.1 h with h | ⟨hp, h⟩
    · exact ⟨.post, h, by simp [Form.earlier, hg]⟩
    · exact ⟨.general, h, by simp [Form.earlier, hg, hp]⟩
  · rintro ⟨f, hf, hn⟩
    cases f <;> simp_all [Form.earlier]

/-- A request expression that a text states: of the form `f`, after `front`, the first of its form,
and with none of an earlier form in the text. -/
structure Chosen (s : Text) (f : Form) (front : Text) (e : RequestExpr) : Prop where
  place : ∃ tail, StandsAlone none f.keyword s front tail ∧ f.after? tail = some e
  first : ∀ front' tail', StandsAlone none f.keyword s front' tail' →
    front'.length < front.length → f.after? tail' = none
  preferred : ∀ g ∈ f.earlier, ∀ front' tail', StandsAlone none g.keyword s front' tail' →
    g.after? tail' = none

/-- **The request expression of a text**: the leftmost of the first form that the text holds. -/
theorem find?_eq_some_iff {s : Text} {e : RequestExpr} :
    find? s = some e ↔ ∃ f front, Chosen s f front e := by
  rw [find?_eq_some_iff_search?]
  refine exists_congr fun f => ?_
  simp only [Form.search?, findSome?_afterKeyword_eq_some_iff, findSome?_afterKeyword_eq_none_iff]
  constructor
  · rintro ⟨⟨front, tail, hp, ha, hmin⟩, hn⟩
    exact ⟨front, ⟨tail, hp, ha⟩, hmin, hn⟩
  · rintro ⟨front, ⟨tail, hp, ha⟩, hmin, hn⟩
    exact ⟨⟨front, tail, hp, ha, hmin⟩, hn⟩

/-! ## Parts of a text -/

/-- **A chosen expression stays chosen** without a part of the text before it. -/
theorem Chosen.of_append {x s front : Text} {b : Char} {f : Form} {e : RequestExpr}
    (hb : isBlank b = true) (h : Chosen (x ++ b :: s) f front e) (hx : x.length ≤ front.length) :
    ∃ front', Chosen s f front' e := by
  obtain ⟨tail, hp, ha⟩ := h.place
  obtain ⟨d, w, hw, hd⟩ := f.exists_keyword_eq_cons
  -- the keyword starts with no white space, so it stands after `b`
  obtain ⟨y, rfl, hs⟩ : ∃ y, front = x ++ b :: y ∧ s = y ++ f.keyword ++ tail := by
    have heq := hp.eq
    rw [List.append_assoc] at heq
    rcases List.append_eq_append_iff.1 heq with ⟨y, rfl, hy⟩ | ⟨y, rfl, hy⟩
    · cases y with
      | nil =>
        rw [hw] at hy
        obtain ⟨rfl, -⟩ := List.cons.inj hy
        simp [hb] at hd
      | cons c y =>
        obtain ⟨rfl, rfl⟩ := List.cons.inj hy
        exact ⟨y, rfl, by simp⟩
    · have hn : y = [] := by
        rw [List.length_append] at hx
        exact List.length_eq_zero_iff.1 (by omega)
      subst hn
      rw [hw] at hy
      obtain ⟨rfl, -⟩ := List.cons.inj hy
      simp [hb] at hd
  refine ⟨y, ⟨tail, ⟨hs, ?_, hp.stop⟩, ha⟩, ?_, ?_⟩
  · have hst := hp.start
    cases hl : y.getLast? with
    | none => simp [startsHere]
    | some c => simpa [List.getLast?_append, getLast?_cons_eq_or, hl] using hst
  · intro front' tail' hp' hlt
    exact h.first _ tail' (hp'.append_right (isIdentChar_of_isBlank hb) x) (by simp; omega)
  · intro g hg front' tail' hp'
    exact h.preferred g hg _ tail' (hp'.append_right (isIdentChar_of_isBlank hb) x)

end SpecHarvest.RequestExpr
