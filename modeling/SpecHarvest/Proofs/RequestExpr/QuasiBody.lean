import SpecHarvest.Proofs.ExpectedExpr.Body
import SpecHarvest.Proofs.Json.Spacing
import SpecHarvest.Proofs.RequestExpr.General
import SpecHarvest.Proofs.RequestExpr.Literal

/-!
# Bodies written as JSON

A post may send JSON that is written in a quasi-literal. The white space of the whole request is
collapsed before the body is read, that of the strings in the JSON too, and a `get` is looked for
before a `post`, in the JSON too.

* `Literals raws s`: the text `s` has string literals that hold `raws`, in this order, and nothing
  around them where a `get` could start. `literals_compact`: a compact text is such a text, and so
  is a post of it. `isSome_get_search?_literals`: a `get` is read in it just if one of its literals
  but the last ends with the word.
* `quasiPost p t`: the text of a post of the JSON text `t` to `p`.
* `parse?_quasiPost`: what is sent for it. `body_ne_compact`: not always what is written.
-/

namespace SpecHarvest.RequestExpr

open Text Source Json

/-! ## Texts and the string literals in them -/

/-- Characters that neither bound a literal nor start the word `get`. -/
def isPlain (c : Char) : Bool := c != '"' && c != '\\' && c != 'g'

/-- A text in which string literals hold the given texts, in this order, with nothing else in it
that bounds a literal or starts the word `get`. -/
inductive Literals : List Text → Text → Prop
  | nil {x : Text} : x.all isPlain = true → Literals [] x
  | cons {x raw s : Text} {raws : List Text} : x.all isPlain = true → Raw raw → Literals raws s →
    Literals (raw :: raws) (x ++ '"' :: (raw ++ '"' :: s))

theorem raw_of_plain {x : Text} (hx : x.all isPlain = true) : Raw x := by
  induction x with
  | nil => exact .nil
  | cons c x ih =>
    simp only [List.all_cons, Bool.and_eq_true, isPlain, bne_iff_ne] at hx
    exact .plain hx.1.1.1 hx.1.1.2 (ih hx.2)

theorem closeQuote?_of_plain {x : Text} (hx : x.all isPlain = true) : closeQuote? x = none := by
  refine Option.eq_none_iff_forall_ne_some.2 fun q hq => ?_
  have hmem : '"' ∈ x := by
    rw [eq_of_closeQuote? hq]
    simp
  exact absurd (List.all_eq_true.1 hx _ hmem) (by decide)

theorem not_standsAlone_get {x front tail : Text} (hx : x.all isPlain = true) :
    ¬StandsAlone none Form.get.keyword x front tail := by
  refine not_standsAlone_of_not_mem (c := 'g') (by decide) fun hmem => ?_
  exact absurd (List.all_eq_true.1 hx _ hmem) (by decide)

namespace Literals

variable {raws raws' : List Text} {s t x : Text}

theorem plain_append (hx : x.all isPlain = true) (h : Literals raws s) :
    Literals raws (x ++ s) := by
  cases h with
  | nil hy => exact .nil (by rw [List.all_append, hx, hy, Bool.and_self])
  | cons hy hr h =>
    rw [← List.append_assoc]
    exact .cons (by rw [List.all_append, hx, hy, Bool.and_self]) hr h

theorem append (h : Literals raws s) (h' : Literals raws' t) :
    Literals (raws ++ raws') (s ++ t) := by
  induction h with
  | nil hx => exact h'.plain_append hx
  | @cons x raw s raws hx hr _ ih =>
    have htext : x ++ '"' :: (raw ++ '"' :: s) ++ t = x ++ '"' :: (raw ++ '"' :: (s ++ t)) := by simp
    rw [htext]
    exact .cons hx hr ih

theorem literal {raw : Text} (h : Raw raw) : Literals [raw] ('"' :: (raw ++ ['"'])) :=
  .cons (x := []) rfl h (.nil (x := []) rfl)

theorem flatMap {α : Type} {f : α → List Text} {g : α → Text} {xs : List α}
    (h : ∀ a ∈ xs, Literals (f a) (g a)) : Literals (xs.flatMap f) (xs.flatMap g) := by
  induction xs with
  | nil => exact .nil rfl
  | cons a xs ih =>
    rw [List.forall_mem_cons] at h
    exact h.1.append (ih h.2)

/-- A literal can be closed in such a text just if it holds a literal. -/
theorem isSome_closeQuote?_iff (h : Literals raws s) :
    (closeQuote? s).isSome = true ↔ raws ≠ [] := by
  cases h with
  | nil hx =>
    rw [closeQuote?_of_plain hx]
    simp
  | cons hx _ _ =>
    rw [(raw_of_plain hx).closeQuote?]
    simp

/-- **A `get` is read** just if a literal that is not the last one ends with the word. -/
theorem isSome_get_search?_iff (h : Literals raws s) : (Form.get.search? s).isSome = true ↔
    ∃ raw ∈ raws.dropLast, EndsWithKeyword Form.get.keyword raw := by
  induction h with
  | @nil x hx =>
    rw [isSome_search?_iff]
    constructor
    · rintro ⟨front, tail, hp, -⟩
      exact absurd hp (not_standsAlone_get hx)
    · rintro ⟨raw, hraw, -⟩
      cases hraw
  | @cons x raw s raws hx hr hs ih =>
    have hq : isIdentChar '"' = false := by decide
    have hqw : '"' ∉ Form.get.keyword := by decide
    have hlast : (∃ r ∈ (raw :: raws).dropLast, EndsWithKeyword Form.get.keyword r) ↔
        (raws ≠ [] ∧ EndsWithKeyword Form.get.keyword raw) ∨
          ∃ r ∈ raws.dropLast, EndsWithKeyword Form.get.keyword r := by
      cases raws <;> simp
    rw [hlast, ← ih, isSome_search?_iff, isSome_search?_iff, ← hs.isSome_closeQuote?_iff]
    constructor
    · rintro ⟨front, tail, hp, ha⟩
      rcases (standsAlone_append_iff hq hqw).1 hp with ⟨t, -, hx'⟩ | ⟨u, -, hrest⟩
      · exact absurd hx' (not_standsAlone_get hx)
      rcases (standsAlone_append_iff hq hqw).1 hrest with ⟨t, rfl, hraw⟩ | ⟨u, -, htail⟩
      · obtain ⟨q, hread⟩ := isSome_get_after?_iff.1 ha
        obtain ⟨he, hc⟩ := endsWithKeyword_of_argument? hr hraw hread
        exact .inl ⟨by rw [hc, Option.isSome_some], he⟩
      · exact .inr ⟨_, _, htail, ha⟩
    · rintro (⟨hc, f, gap, hp, hne, hg⟩ | ⟨front, tail, hp, ha⟩)
      · refine ⟨_, _, (hp.append_left hq _).append_right hq x, isSome_get_after?_iff.2 ?_⟩
        rw [argument?_of_allBlank hne hg]
        exact Option.isSome_iff_exists.1 hc
      · exact ⟨_, _, (hp.append_right hq raw).append_right hq x, ha⟩

end Literals

/-! ## The literals of a compact text -/

theorem raw_escaped (s : Text) : Raw (escaped s) :=
  (raw_of_stringRest? (stringRest?_escaped s [])).1

theorem isPlain_of_isDigit {c : Char} (h : c.isDigit = true) : isPlain c = true := by
  simp only [isPlain, Bool.and_eq_true, bne_iff_ne, ne_eq]
  refine ⟨⟨?_, ?_⟩, ?_⟩ <;> rintro rfl <;> revert h <;> decide

theorem literals_layout {α : Type} {f : α → List Text} {g : α → Text} {opening closing : Char}
    (ho : isPlain opening = true) (hc : isPlain closing = true) {xs : List α}
    (h : ∀ a ∈ xs, Literals (f a) (g a)) :
    Literals (xs.flatMap f) (layout opening closing [] [] (xs.map g)) := by
  cases xs with
  | nil => exact .nil (by simp [layout, ho, hc])
  | cons a xs =>
    rw [List.forall_mem_cons] at h
    have hcomma : [','].all isPlain = true := by decide
    have hitems : Literals (xs.flatMap f) (xs.flatMap fun a => ',' :: g a) :=
      .flatMap fun b hb => (h.2 b hb).plain_append hcomma
    have hclosing : Literals [] [closing] := .nil (by simp [hc])
    have hopening : [opening].all isPlain = true := by simp [ho]
    have hall := ((h.1.append hitems).append hclosing).plain_append hopening
    simpa [layout, List.flatMap_map] using hall

/-- **The literals of a compact text** are the strings and keys of the value. -/
theorem literals_compact {q : List Text → Prop} {v : Value} (h : v.All (·.isInteger = true) q) :
    Literals (v.strings.map escaped) v.compact := by
  induction h with
  | null => exact .nil (by decide)
  | bool b => cases b <;> exact .nil (by decide)
  | number hn =>
    obtain ⟨k, rfl, -⟩ := Number.exists_of_isInteger hn
    refine .nil (List.all_eq_true.2 fun c hc => ?_)
    rcases Number.eq_or_isDigit_of_mem_render hc with rfl | hd
    · decide
    · exact isPlain_of_isDigit hd
  | string s => exact .literal (raw_escaped s)
  | array _ ih =>
    rw [Value.compact_array, Value.strings, Value.itemStrings_eq_flatMap, List.map_flatMap]
    exact literals_layout (by decide) (by decide) ih
  | object _ _ ih =>
    rw [Value.compact_object, Value.strings, Value.fieldStrings_eq_flatMap, List.map_flatMap]
    refine literals_layout (by decide) (by decide) fun f hf => ?_
    have hcolon : [':'].all isPlain = true := by decide
    rw [fieldText, renderString_append]
    exact .cons (x := []) rfl (raw_escaped f.1) ((ih f hf).plain_append hcolon)

/-! ## A post of JSON -/

/-- A post of a JSON text. -/
def quasiPost (p t : Text) : Text := "post ".toList ++ '"' :: (p ++ '"' :: ' ' :: quasi t)

variable {p : Text} {v : Value}

theorem space_quasi (t : Text) :
    ' ' :: quasi t = " [json".toList ++ '|' :: (t ++ '|' :: [']']) := by
  have hopen : ' ' :: quasiOpen = " [json".toList ++ ['|'] := by decide
  have hclose : quasiClose = ['|', ']'] := by decide
  rw [quasi, ← List.cons_append, hopen, hclose, List.append_assoc, List.singleton_append]

theorem literals_quasiPost {raws : List Text} {t : Text} (hp : Raw p) (h : Literals raws t) :
    Literals (p :: raws) (quasiPost p t) := by
  have hpost : "post ".toList.all isPlain = true := by decide
  have hfront : (' ' :: quasiOpen).all isPlain = true := by decide
  have hclose : Literals [] quasiClose := .nil (by decide)
  have hbody := (h.append hclose).plain_append hfront
  rw [List.append_nil] at hbody
  exact .cons hpost hp hbody

theorem squeeze_space_quasi (t : Text) :
    squeeze true (' ' :: quasi t) = ' ' :: quasi (tighten t) := by
  have hbar : isBlank '|' = false := by decide
  have hjson : tighten " [json".toList = " [json".toList := by decide
  have hclose : squeeze true [']'] = [']'] := by decide
  rw [space_quasi, squeeze_append_cons hbar, squeeze_append_cons hbar, hjson, hclose, space_quasi]

theorem collapse_quasiPost (p t : Text) :
    collapse (quasiPost p t) = quasiPost (tighten p) (tighten t) := by
  have hq : isBlank '"' = false := by decide
  have hsqueeze : ∀ word : Text, tighten word = word →
      squeeze true (word ++ '"' :: (p ++ '"' :: ' ' :: quasi t)) =
        word ++ '"' :: (tighten p ++ '"' :: ' ' :: quasi (tighten t)) := by
    intro word hword
    rw [squeeze_append_cons hq, squeeze_append_cons hq, squeeze_space_quasi, hword]
  exact (collapse_of_not_isBlank (by decide) _).trans (hsqueeze "post ".toList (by decide))

/-- **The post is read** if no `get` is. -/
theorem find?_quasiPost {t : Text} (hp : Raw p)
    (hg : ¬(Form.get.search? (quasiPost p t)).isSome = true) :
    find? (quasiPost p t) = some (.post p (trimEnd (quasi t))) := by
  have hplace : StandsAlone none Form.post.keyword (quasiPost p t) []
      (' ' :: '"' :: (p ++ '"' :: ' ' :: quasi t)) := ⟨rfl, rfl, rfl⟩
  have hstart : trimStart (quasi t) = quasi t := trimStart_cons_of_not_blank (by decide) _
  exact find?_of_post_search? hg (findSome?_afterKeyword_eq_some_iff.2
    ⟨_, _, hplace, post_after?_post hp rfl hstart, fun _ _ _ hlt => absurd hlt (Nat.not_lt_zero _)⟩)

theorem bodyResolve?_quasi {t : Text} {w : Value} (hc : contains quasiClose t = false)
    (hw : parseRelaxed (trim t) = .ok w) : Body.resolve? (quasi t) = some (some w.compact) := by
  have hnone : Body.isNone (quasi t) = false := rfl
  simp [Body.resolve?, trim_quasi, hnone, quasiContent?_quasi hc, hw]

/-- A literal of the post other than the last one ends with the word `get` and white space. -/
def ShowsGet (p : Text) (v : Value) : Prop :=
  ∃ raw ∈ (p :: v.strings.map escaped).dropLast, EndsWithKeyword Form.get.keyword (tighten raw)

theorem isSome_get_search?_quasiPost (hp : Raw p) (hv : v.Regular) :
    (Form.get.search? (quasiPost (tighten p) (tighten v.compact))).isSome = true ↔
      ShowsGet p v := by
  have hraws : tighten p :: (v.mapStrings singleSpaces).strings.map escaped =
      (p :: v.strings.map escaped).map tighten := by
    rw [Value.strings_mapStrings hv, List.map_map, List.map_cons, List.map_map]
    exact congrArg _ (List.map_congr_left fun s _ => (tighten_escaped s).symm)
  have hspaced : (v.mapStrings singleSpaces).All (·.isInteger = true) fun _ => True :=
    hv.mapStrings
  have hlits := literals_quasiPost (raw_tighten hp) (literals_compact hspaced)
  rw [Value.tighten_compact hv, hlits.isSome_get_search?_iff, hraws, ← List.map_dropLast, ShowsGet]
  simp only [List.mem_map, exists_exists_and_eq_and]

/-- **What is sent for a post of the JSON text of a value.** A `get` at the end of a literal that is
not the last one is taken for the request. Otherwise the value is sent with single spaces in its
strings and keys. So the text that is written is sent just if there is no such `get` and all strings
and keys have single spaces only. -/
theorem parse?_quasiPost (hp : Raw p) (hv : v.Regular) (hd : v.depth ≤ maxDepth)
    (hc : contains quasiClose v.compact = false) (bindings : Bindings) :
    (ShowsGet p v → ∃ path,
      Request.parse? bindings (quasiPost p v.compact) = some ⟨.get, path, [], none⟩) ∧
    (¬ShowsGet p v → Request.parse? bindings (quasiPost p v.compact) =
      some ⟨.post, unescape (tighten p), [], some v.spaced.compact⟩) ∧
    ((∃ r, Request.parse? bindings (quasiPost p v.compact) = some r ∧ r.body = some v.compact) ↔
      ¬ShowsGet p v ∧ ∀ s ∈ v.strings, singleSpaces s = s) := by
  have hget : ShowsGet p v → ∃ path,
      Request.parse? bindings (quasiPost p v.compact) = some ⟨.get, path, [], none⟩ := by
    intro hg
    obtain ⟨path, hfind⟩ := find?_of_get_search? ((isSome_get_search?_quasiPost hp hv).2 hg)
    exact ⟨unescape path, by rw [Request.parse?, collapse_quasiPost, hfind]; rfl⟩
  have hpost : ¬ShowsGet p v → Request.parse? bindings (quasiPost p v.compact) =
      some ⟨.post, unescape (tighten p), [], some v.spaced.compact⟩ := by
    intro hg
    have htrim : trim (tighten v.compact) = tighten v.compact := by
      rw [Value.tighten_compact hv, Value.trim_compact hv.mapStrings]
    have hempty : (tighten v.compact).isEmpty = false := by
      rw [Value.tighten_compact hv]
      simpa using Value.compact_ne_nil _
    have hread : parseRelaxed (trim (tighten v.compact)) = .ok v.spaced := by
      simp [parseRelaxed, htrim, hempty, Value.parse?_tighten_compact hv hd]
    have hblank : quasiClose.all (!isBlank ·) = true := by decide
    have hclose : contains quasiClose (tighten v.compact) = false := by
      rw [Bool.eq_false_iff, ne_eq, contains_iff] at hc ⊢
      exact fun h => hc (isInfix_of_tighten (by decide)
        (by simpa using List.all_eq_true.1 hblank) h)
    have hfind := find?_quasiPost (raw_tighten hp) (mt (isSome_get_search?_quasiPost hp hv).1 hg)
    rw [Request.parse?, collapse_quasiPost, hfind, Option.bind_some, resolve?, ← bodyResolve?_trim,
      trim_trimEnd, bodyResolve?_trim, bodyResolve?_quasi hclose hread]
    rfl
  refine ⟨hget, hpost, ?_⟩
  rw [← Value.compact_spaced_eq_iff hv hd]
  constructor
  · rintro ⟨r, hr, hbody⟩
    have hg : ¬ShowsGet p v := by
      intro hg
      obtain ⟨path, h⟩ := hget hg
      obtain rfl := Option.some.inj (hr.symm.trans h)
      cases hbody
    obtain rfl := Option.some.inj (hr.symm.trans (hpost hg))
    exact ⟨hg, Option.some.inj hbody⟩
  · rintro ⟨hg, hs⟩
    exact ⟨_, hpost hg, congrArg some hs⟩

example : Request.parse? []
    (quasiPost "/p".toList (Value.array [.string "get ".toList, .string "x".toList]).compact) =
      some ⟨.get, ",".toList, [], none⟩ := by decide +kernel

/-- An item with a name of two words. -/
def namedItem : Value := .object [("name".toList, .string "a b".toList)]

theorem parse?_quasiPost_item : Raw "/items".toList ∧ namedItem.Regular ∧
    namedItem.depth ≤ maxDepth ∧ contains quasiClose namedItem.compact = false ∧
    ¬ShowsGet "/items".toList namedItem ∧ ∃ r,
      Request.parse? [] (quasiPost "/items".toList namedItem.compact) = some r ∧
        r.body = some "\x7b\"name\":\"a b\"\x7d".toList := by
  have hp : Raw "/items".toList := by decide
  have hv : namedItem.Regular := by decide
  have hd : namedItem.depth ≤ maxDepth := by decide
  have hc : contains quasiClose namedItem.compact = false := by decide
  have hg : ¬ShowsGet "/items".toList namedItem := by
    rw [← isSome_get_search?_quasiPost hp hv]
    decide +kernel
  have hs : ∀ s ∈ namedItem.strings, singleSpaces s = s := by decide
  have htext : namedItem.compact = "\x7b\"name\":\"a b\"\x7d".toList := by decide
  exact ⟨hp, hv, hd, hc, hg, htext ▸ (parse?_quasiPost hp hv hd hc []).2.2.2 ⟨hg, hs⟩⟩

/-- **Not every JSON text is sent as it is written**: two spaces in a string become one. -/
theorem body_ne_compact : ¬∀ v : Value, v.Regular → v.depth ≤ maxDepth →
    contains quasiClose v.compact = false →
      ∃ r, Request.parse? [] (quasiPost "/p".toList v.compact) = some r ∧
        r.body = some v.compact := by
  intro h
  obtain ⟨r, hr, hbody⟩ := h (.string "x  y".toList) (.string _) (by decide) (by decide)
  have hparse : Request.parse? [] (quasiPost "/p".toList (Value.string "x  y".toList).compact) =
      some ⟨.post, "/p".toList, [], some "\"x y\"".toList⟩ := by decide +kernel
  obtain rfl := Option.some.inj (hr.symm.trans hparse)
  revert hbody
  decide

end SpecHarvest.RequestExpr
