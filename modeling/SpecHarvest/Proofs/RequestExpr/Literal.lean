import SpecHarvest.Proofs.RequestExpr.Search
import SpecHarvest.Proofs.Source.Literal
import SpecHarvest.Proofs.Text.Blank

/-!
# Words within literals

The request expression of a text is looked for in all of it, in its literals too. A keyword in a
literal counts if the literal ends right after it and some white space, for then the closing quote
is taken for one that opens a path. In a body it counts wherever a path follows.

* `postTest d p b`: a test with the description `d` that posts `b` to `p`.
* `HidesGet`, `HidesPost`: when a request expression lies in the literals. `find?_of_get_search?`,
  `find?_of_hidesPost` and `find?_of_not_hides` say which one is read.
* `parse?_postTest`: so what is sent. `not_post_of_postTest`: it need not be a post to `p`.
-/

namespace SpecHarvest.RequestExpr

open Text Source

/-- The text before the separator of a test that makes one post. -/
def postTest (d p b : Text) : Text :=
  "it ".toList ++ '"' :: (d ++ '"' :: (" $ post ".toList ++ '"' :: (p ++ '"' :: ' ' :: b)))

/-- A literal whose last word is a keyword and has white space after it. -/
def EndsWithKeyword (word raw : Text) : Prop :=
  ∃ front gap, StandsAlone none word raw front gap ∧ gap ≠ [] ∧ allBlank gap = true

/-- The literals of a post hold something that is read as a `get`. -/
def HidesGet (d p b : Text) : Prop :=
  EndsWithKeyword Form.get.keyword d ∨
    (EndsWithKeyword Form.get.keyword p ∧ (closeQuote? b).isSome = true) ∨
    (Form.get.search? b).isSome = true

/-- The description and the path of a post hold something that is read as a `post`. -/
def HidesPost (d p : Text) : Prop :=
  EndsWithKeyword Form.post.keyword d ∧ ∃ c s, p = c :: s ∧ isBlank c = true

/-! ## The text with its white space collapsed -/

theorem raw_tighten {s : Text} (h : Raw s) : Raw (tighten s) := by
  have both : ∀ p, Raw (tightenFrom p s) := by
    induction h with
    | nil => exact fun p => .nil
    | @escaped c s h ih =>
      intro p
      have hb : isBlank '\\' = false := by decide
      cases hc : isBlank c with
      | true =>
        have hs : tightenFrom p ('\\' :: c :: s) = '\\' :: ' ' :: tightenFrom true s := by
          simp [tightenFrom, hb, hc]
        rw [hs]
        exact .escaped ' ' (ih true)
      | false =>
        have hs : tightenFrom p ('\\' :: c :: s) = '\\' :: c :: tightenFrom false s := by
          simp [tightenFrom, hb, hc]
        rw [hs]
        exact .escaped c (ih false)
    | @plain c s hq hne h ih =>
      intro p
      cases hc : isBlank c with
      | true =>
        cases p with
        | true => simpa [tightenFrom, hc] using ih true
        | false =>
          have hs : tightenFrom false (c :: s) = ' ' :: tightenFrom true s := by
            simp [tightenFrom, hc]
          rw [hs]
          exact .plain (by decide) (by decide) (ih true)
      | false =>
        have hs : tightenFrom p (c :: s) = c :: tightenFrom false s := by simp [tightenFrom, hc]
        rw [hs]
        exact .plain hq hne (ih false)
  exact both false

theorem collapse_postTest (d p : Text) {b : Text} (hb : trimStart b ≠ []) :
    collapse (postTest d p b) = postTest (tighten d) (tighten p) (collapse b) := by
  have hq : isBlank '"' = false := by decide
  have hit : tighten "it ".toList = "it ".toList := by decide
  have hpost : tighten " $ post ".toList = " $ post ".toList := by decide
  have hbody : squeeze true (' ' :: b) = ' ' :: collapse b := by
    rw [squeeze_blank (by decide), collapse_eq_squeeze_trimStart]
    exact ((squeeze_false_eq b).resolve_left fun h => hb h.2).1
  have hcollapse : collapse (postTest d p b) = squeeze true (postTest d p b) :=
    collapse_of_not_isBlank (by decide) _
  rw [hcollapse, postTest, squeeze_append_cons hq, squeeze_append_cons hq, squeeze_append_cons hq,
    squeeze_append_cons hq, hbody, hit, hpost, postTest]

/-! ## Readers after a keyword -/

/-- A literal after white space. -/
def argument? (s : Text) : Option (Text × Text) := (blanks? s).bind quoted?

theorem get_after?_eq (s : Text) :
    Form.get.after? s = (argument? s).map fun (path, _) => .get path := by
  simp only [Form.after?, argument?, Option.bind_eq_bind, Option.pure_def]
  cases blanks? s with
  | none => rfl
  | some t => simp only [Option.bind_some]; cases quoted? t <;> rfl

theorem post_after?_eq (s : Text) : Form.post.after? s =
    (argument? s).bind fun (path, rest) => (lastExpr? rest).map (.post path) := by
  simp only [Form.after?, argument?, Option.bind_eq_bind, Option.pure_def]
  cases blanks? s with
  | none => rfl
  | some t =>
    simp only [Option.bind_some]
    cases quoted? t with
    | none => rfl
    | some q => simp only [Option.bind_some]; cases lastExpr? q.2 <;> rfl

theorem argument?_of_blank {c : Char} (hc : isBlank c = true) (s : Text) :
    argument? (c :: s) = quoted? (trimStart s) := by
  simp [argument?, blanks?, hc]

/-- At the end of a literal its closing quote opens the next one. -/
theorem argument?_of_allBlank {gap : Text} (hne : gap ≠ []) (hg : allBlank gap = true) (y : Text) :
    argument? (gap ++ '"' :: y) = closeQuote? y := by
  obtain ⟨c, g, rfl⟩ := List.exists_cons_of_ne_nil hne
  simp only [allBlank, List.all_cons, Bool.and_eq_true] at hg
  rw [List.cons_append, argument?_of_blank hg.1, trimStart_append_of_allBlank hg.2,
    trimStart_cons_of_not_blank (by decide)]
  rfl

/-- Within a literal none opens, for no quote follows white space there. -/
theorem argument?_of_raw {x t : Text} (h : Raw (x ++ t)) (ht : ¬(t ≠ [] ∧ allBlank t = true))
    (y : Text) : argument? (t ++ '"' :: y) = none := by
  cases t with
  | nil => simp [argument?, blanks?, show isBlank '"' = false by decide]
  | cons c t =>
    cases hc : isBlank c with
    | false => simp [argument?, blanks?, hc]
    | true =>
      have hall : ¬trimStart t = [] := by
        rw [trimStart_eq_nil_iff]
        intro hall
        exact ht ⟨by simp, by simpa [allBlank, hc] using hall⟩
      obtain ⟨e, r, hr⟩ := List.exists_cons_of_ne_nil hall
      have hne : e ≠ '"' := by
        rintro rfl
        obtain ⟨g, l, hg⟩ : ∃ g l, c :: t.takeWhile isBlank = g ++ [l] :=
          ⟨_, _, (List.dropLast_concat_getLast (by simp)).symm⟩
        have hl : isBlank l = true := by
          have hm : l ∈ c :: t.takeWhile isBlank := by rw [hg]; simp
          rcases List.mem_cons.1 hm with rfl | hm
          · exact hc
          · exact List.all_eq_true.1 (allBlank_takeWhile t) l hm
        have hx : x ++ c :: t = (x ++ g) ++ l :: '"' :: r := by
          rw [← takeWhile_append_trimStart t, hr, ← List.cons_append, hg]
          simp
        exact Raw.not_blank_quote hl (hx ▸ h)
      rw [List.cons_append, argument?_of_blank hc, trimStart_append, if_neg hall, hr]
      simp [quoted?, hne]

theorem endsWithKeyword_of_argument? {word raw front t y : Text} {q : Text × Text} (hr : Raw raw)
    (hp : StandsAlone none word raw front t) (h : argument? (t ++ '"' :: y) = some q) :
    EndsWithKeyword word raw ∧ closeQuote? y = some q := by
  by_cases ht : t ≠ [] ∧ allBlank t = true
  · rw [argument?_of_allBlank ht.1 ht.2] at h
    exact ⟨⟨front, t, hp, ht.1, ht.2⟩, h⟩
  · rw [argument?_of_raw (hp.eq ▸ hr) ht] at h
    cases h

/-! ## Places of a keyword -/

/-- The places of a word in a test that makes one post. -/
inductive Place (word d p b : Text) : (front tail : Text) → Prop
  | description {f t : Text} : StandsAlone none word d f t →
    Place word d p b ("it ".toList ++ '"' :: f)
      (t ++ '"' :: (" $ post ".toList ++ '"' :: (p ++ '"' :: ' ' :: b)))
  | helper {f t : Text} : StandsAlone none word " $ post ".toList f t →
    Place word d p b ("it ".toList ++ '"' :: (d ++ '"' :: f)) (t ++ '"' :: (p ++ '"' :: ' ' :: b))
  | path {f t : Text} : StandsAlone none word p f t →
    Place word d p b ("it ".toList ++ '"' :: (d ++ '"' :: (" $ post ".toList ++ '"' :: f)))
      (t ++ '"' :: ' ' :: b)
  | body {f t : Text} : StandsAlone none word b f t →
    Place word d p b
      ("it ".toList ++ '"' :: (d ++ '"' :: (" $ post ".toList ++ '"' :: (p ++ '"' :: ' ' :: f)))) t

variable {d p b : Text}

theorem standsAlone_postTest_iff {f : Form} {front tail : Text} :
    StandsAlone none f.keyword (postTest d p b) front tail ↔ Place f.keyword d p b front tail := by
  have hq : isIdentChar '"' = false := by decide
  have hs : isIdentChar ' ' = false := by decide
  constructor
  · intro h
    have hqw : '"' ∉ f.keyword := by cases f <;> decide
    have hsw : ' ' ∉ f.keyword := by cases f <;> decide
    obtain ⟨c, hc, hit⟩ : ∃ c ∈ f.keyword, c ∉ "it ".toList := by
      cases f with
      | get => exact ⟨'g', by decide, by decide⟩
      | post => exact ⟨'p', by decide, by decide⟩
      | general => exact ⟨'r', by decide, by decide⟩
    rcases (standsAlone_append_iff hq hqw).1 h with ⟨t, -, h₁⟩ | ⟨u, rfl, h₁⟩
    · exact absurd h₁ (not_standsAlone_of_not_mem hc hit)
    rcases (standsAlone_append_iff hq hqw).1 h₁ with ⟨t, rfl, h₂⟩ | ⟨u, rfl, h₂⟩
    · exact .description h₂
    rcases (standsAlone_append_iff hq hqw).1 h₂ with ⟨t, rfl, h₃⟩ | ⟨u, rfl, h₃⟩
    · exact .helper h₃
    rcases (standsAlone_append_iff hq hqw).1 h₃ with ⟨t, rfl, h₄⟩ | ⟨u, rfl, h₄⟩
    · exact .path h₄
    rcases (standsAlone_append_iff (x := []) hs hsw).1 h₄ with ⟨t, -, h₅⟩ | ⟨u, rfl, h₅⟩
    · exact absurd h₅ (not_standsAlone_of_not_mem hc (by simp))
    · exact .body h₅
  · intro h
    cases h with
    | description h => exact (h.append_left hq _).append_right hq _
    | helper h => exact ((h.append_left hq _).append_right hq _).append_right hq _
    | path h => exact (((h.append_left hq _).append_right hq _).append_right hq _).append_right hq _
    | body h =>
      have h₁ : StandsAlone none f.keyword ([] ++ ' ' :: b) ([] ++ ' ' :: _) tail :=
        h.append_right hs []
      exact (((h₁.append_right hq _).append_right hq _).append_right hq _).append_right hq _

/-! ## Hidden requests -/

theorem isSome_search?_iff {f : Form} {s : Text} : (f.search? s).isSome = true ↔
    ∃ front tail, StandsAlone none f.keyword s front tail ∧ (f.after? tail).isSome = true := by
  rw [Form.search?, ← Option.ne_none_iff_isSome, ne_eq, findSome?_afterKeyword_eq_none_iff]
  simp only [not_forall, ← ne_eq, Option.ne_none_iff_isSome, exists_prop]

theorem isSome_closeQuote?_cons_space {s : Text} :
    (closeQuote? (' ' :: s)).isSome = (closeQuote? s).isSome := by
  simp [closeQuote?]

theorem isSome_get_after?_iff {s : Text} :
    (Form.get.after? s).isSome = true ↔ ∃ q, argument? s = some q := by
  rw [get_after?_eq, Option.isSome_map, Option.isSome_iff_exists]

theorem raw_helper : Raw " $ post ".toList := by decide

/-- **When a `get` is read in the literals of a post.** -/
theorem isSome_get_search?_postTest (hd : Raw d) (hp : Raw p) :
    (Form.get.search? (postTest d p b)).isSome = true ↔ HidesGet d p b := by
  rw [isSome_search?_iff]
  constructor
  · rintro ⟨front, tail, hpl, ha⟩
    obtain ⟨q, ha⟩ := isSome_get_after?_iff.1 ha
    cases standsAlone_postTest_iff.1 hpl with
    | description h => exact .inl (endsWithKeyword_of_argument? hd h ha).1
    | helper h => exact absurd h (not_standsAlone_of_not_mem (c := 'g') (by decide) (by decide))
    | path h =>
      obtain ⟨he, hc⟩ := endsWithKeyword_of_argument? hp h ha
      refine .inr (.inl ⟨he, ?_⟩)
      rw [← isSome_closeQuote?_cons_space, hc]
      rfl
    | body h =>
      exact .inr (.inr (isSome_search?_iff.2 ⟨_, _, h, isSome_get_after?_iff.2 ⟨q, ha⟩⟩))
  · rintro (⟨f, gap, h, hne, hg⟩ | ⟨⟨f, gap, h, hne, hg⟩, hc⟩ | h)
    · refine ⟨_, _, standsAlone_postTest_iff.2 (.description h), isSome_get_after?_iff.2 ?_⟩
      rw [argument?_of_allBlank hne hg, raw_helper.closeQuote?]
      exact ⟨_, rfl⟩
    · refine ⟨_, _, standsAlone_postTest_iff.2 (.path h), isSome_get_after?_iff.2 ?_⟩
      rw [argument?_of_allBlank hne hg, ← Option.isSome_iff_exists, isSome_closeQuote?_cons_space]
      exact hc
    · obtain ⟨f, t, h, ha⟩ := isSome_search?_iff.1 h
      exact ⟨_, _, standsAlone_postTest_iff.2 (.body h), ha⟩

theorem find?_of_get_search? {s : Text} (h : (Form.get.search? s).isSome = true) :
    ∃ path, find? s = some (.get path) := by
  obtain ⟨e, he⟩ := Option.isSome_iff_exists.1 h
  obtain ⟨tail, -, ha⟩ := List.exists_of_findSome?_eq_some he
  rw [get_after?_eq, Option.map_eq_some_iff] at ha
  obtain ⟨q, -, rfl⟩ := ha
  exact ⟨q.1, by rw [find?_eq_or, he, Option.some_or]⟩

/-! ## The post of a test -/

/-- The frame of the test holds the word once. -/
theorem front_of_standsAlone_helper {f t : Text}
    (h : StandsAlone none Form.post.keyword " $ post ".toList f t) : f = " $ ".toList := by
  have heq : [' ', '$', ' ', 'p', 'o', 's', 't', ' '] = f ++ ['p', 'o', 's', 't'] ++ t := h.eq
  match f with
  | [] => simp at heq
  | [_] => simp at heq
  | [_, _] => simp at heq
  | [_, _, _] =>
    simp only [List.cons_append, List.nil_append, List.cons.injEq] at heq
    obtain ⟨rfl, rfl, rfl, -⟩ := heq
    rfl
  | [_, _, _, _] => simp at heq
  | _ :: _ :: _ :: _ :: _ :: f =>
    have hlen := congrArg List.length heq
    simp only [List.length_append, List.length_cons] at hlen
    omega

theorem lastExpr?_of_blank {c : Char} (hc : isBlank c = true) {s : Text} (hs : allBlank s = false) :
    lastExpr? (c :: s) = some (trimEnd (trimStart s)) := by
  have hne : trimStart s ≠ [] := by
    intro h
    rw [trimStart_eq_nil_iff.1 h] at hs
    cases hs
  obtain ⟨e, r, hr⟩ := List.exists_cons_of_ne_nil hne
  have he : allBlank (e :: r) = false := by
    rw [allBlank, List.all_cons, isBlank_of_trimStart_eq_cons hr, Bool.false_and]
  rw [lastExpr?, blanks?, if_pos hc, Option.bind_some, hr, he]
  rfl

/-- The post itself. -/
theorem standsAlone_post (d p b : Text) : StandsAlone none Form.post.keyword (postTest d p b)
    ("it ".toList ++ '"' :: (d ++ '"' :: " $ ".toList)) (' ' :: '"' :: (p ++ '"' :: ' ' :: b)) := by
  have h : StandsAlone none Form.post.keyword " $ post ".toList " $ ".toList [' '] :=
    ⟨by decide, by decide, by decide⟩
  exact standsAlone_postTest_iff.2 (.helper h)

theorem post_after?_post (hp : Raw p) (hb : allBlank b = false) (hs : trimStart b = b) :
    Form.post.after? (' ' :: '"' :: (p ++ '"' :: ' ' :: b)) = some (.post p (trimEnd b)) := by
  have harg : argument? (' ' :: '"' :: (p ++ '"' :: ' ' :: b)) = some (p, ' ' :: b) := by
    rw [argument?_of_blank (by decide), trimStart_cons_of_not_blank (by decide)]
    exact hp.closeQuote? _
  simp [post_after?_eq, harg, lastExpr?_of_blank (show isBlank ' ' = true by decide) hb, hs]

/-- A post that is read in the description. -/
theorem post_after?_description (hd : Raw d) {f t : Text} {e : RequestExpr}
    (h : StandsAlone none Form.post.keyword d f t)
    (ha : Form.post.after? (t ++ '"' :: (" $ post ".toList ++ '"' :: (p ++ '"' :: ' ' :: b))) =
      some e) : HidesPost d p ∧ ∃ body, e = .post " $ post ".toList body := by
  rw [post_after?_eq, Option.bind_eq_some_iff] at ha
  obtain ⟨q, hq, ha⟩ := ha
  obtain ⟨he, hc⟩ := endsWithKeyword_of_argument? hd h hq
  rw [raw_helper.closeQuote?, Option.some.injEq] at hc
  subst hc
  obtain ⟨body, hbody, rfl⟩ := Option.map_eq_some_iff.1 ha
  refine ⟨⟨he, ?_⟩, body, rfl⟩
  cases p with
  | nil => simp [lastExpr?, blanks?, show isBlank '"' = false by decide] at hbody
  | cons c s =>
    refine ⟨c, s, rfl, ?_⟩
    cases hc : isBlank c with
    | true => rfl
    | false => simp [lastExpr?, blanks?, hc] at hbody

theorem find?_of_post_search? {s : Text} {e : RequestExpr}
    (hg : ¬(Form.get.search? s).isSome = true) (h : Form.post.search? s = some e) :
    find? s = some e := by
  rw [Option.not_isSome_iff_eq_none] at hg
  rw [find?_eq_or, hg, Option.none_or, h, Option.some_or]

/-- **A `post` in the description** is the one that is read. -/
theorem find?_of_hidesPost (hd : Raw d) (hg : ¬(Form.get.search? (postTest d p b)).isSome = true)
    (h : HidesPost d p) : ∃ body, find? (postTest d p b) = some (.post " $ post ".toList body) := by
  obtain ⟨⟨f, gap, hpl, hne, hgap⟩, c, s, rfl, hc⟩ := h
  have hread : (Form.post.after?
      (gap ++ '"' :: (" $ post ".toList ++ '"' :: (c :: s ++ '"' :: ' ' :: b)))).isSome = true := by
    have hlast : allBlank (s ++ '"' :: ' ' :: b) = false := by
      simp [allBlank, show isBlank '"' = false by decide]
    rw [post_after?_eq, argument?_of_allBlank hne hgap, raw_helper.closeQuote?, Option.bind_some,
      List.cons_append]
    change (Option.map _ (lastExpr? (c :: _))).isSome = true
    rw [lastExpr?_of_blank hc hlast, Option.map_some, Option.isSome_some]
  have hplace := standsAlone_postTest_iff.2 (.description (p := c :: s) (b := b) hpl)
  obtain ⟨e, he⟩ := Option.isSome_iff_exists.1 (isSome_search?_iff.2 ⟨_, _, hplace, hread⟩)
  obtain ⟨front, tail, hfirst, ha, hmin⟩ := findSome?_afterKeyword_eq_some_iff.1 he
  -- the first place that is read is no later than this one, so it lies in the description, too
  have hle : front.length ≤ ("it ".toList ++ '"' :: f).length := by
    refine Nat.not_lt.1 fun hlt => ?_
    rw [hmin _ _ hplace hlt] at hread
    cases hread
  have hlen := congrArg List.length hpl.eq
  simp only [List.length_append, List.length_cons] at hle hlen
  cases standsAlone_postTest_iff.1 hfirst with
  | description h =>
    obtain ⟨-, body, rfl⟩ := post_after?_description hd h ha
    exact ⟨body, find?_of_post_search? hg he⟩
  | helper h =>
    simp only [List.length_append, List.length_cons] at hle
    omega
  | path h =>
    simp only [List.length_append, List.length_cons] at hle
    omega
  | body h =>
    simp only [List.length_append, List.length_cons] at hle
    omega

/-- **The post itself is read** if the literals hide no request. -/
theorem find?_of_not_hides (hd : Raw d) (hp : Raw p) (hb : allBlank b = false)
    (hs : trimStart b = b) (hg : ¬(Form.get.search? (postTest d p b)).isSome = true)
    (hpost : ¬HidesPost d p) : find? (postTest d p b) = some (.post p (trimEnd b)) := by
  refine find?_of_post_search? hg (findSome?_afterKeyword_eq_some_iff.2
    ⟨_, _, standsAlone_post d p b, post_after?_post hp hb hs, fun front tail hpl hlt => ?_⟩)
  have hfront : " $ ".toList.length ≤ " $ post ".toList.length := by decide
  cases standsAlone_postTest_iff.1 hpl with
  | description h =>
    cases ha : Form.post.after? _ with
    | none => rfl
    | some e => exact absurd (post_after?_description hd h ha).1 hpost
  | helper h =>
    rw [front_of_standsAlone_helper h] at hlt
    exact absurd hlt (Nat.lt_irrefl _)
  | path h =>
    simp only [List.length_append, List.length_cons] at hlt
    omega
  | body h =>
    simp only [List.length_append, List.length_cons] at hlt
    omega

/-! ## What is sent -/

/-- **What a test sends that makes one post.** If its literals, with their white space collapsed,
hide no request, it is a post to its path, white space collapsed there too, and there is none just
if the body is not understood. A hidden `get` is sent in its place, and so is a hidden `post`, which
goes to what stands between the description and the path. -/
theorem parse?_postTest (hd : Raw d) (hp : Raw p) (hb : allBlank b = false) (bindings : Bindings) :
    (HidesGet (tighten d) (tighten p) (collapse b) →
      ∃ path, Request.parse? bindings (postTest d p b) = some ⟨.get, path, [], none⟩) ∧
    (¬HidesGet (tighten d) (tighten p) (collapse b) → HidesPost (tighten d) (tighten p) →
      ∃ body, Request.parse? bindings (postTest d p b) =
        (Body.resolve? body).map fun sent => ⟨.post, " $ post ".toList, [], sent⟩) ∧
    (¬HidesGet (tighten d) (tighten p) (collapse b) → ¬HidesPost (tighten d) (tighten p) →
      Request.parse? bindings (postTest d p b) =
        (Body.resolve? (collapse b)).map fun sent => ⟨.post, unescape (tighten p), [], sent⟩) := by
  have hne : trimStart b ≠ [] := by
    intro h
    rw [trimStart_eq_nil_iff.1 h] at hb
    cases hb
  have hd' := raw_tighten hd
  have hp' := raw_tighten hp
  have hs : trimStart (collapse b) = collapse b := by
    rw [collapse_eq_squeeze_trimStart, trimStart_squeeze]
  have hb' : allBlank (collapse b) = false := by
    obtain ⟨c, r, hr⟩ := List.exists_cons_of_ne_nil hne
    have hc := isBlank_of_trimStart_eq_cons hr
    rw [collapse_eq_squeeze_trimStart, hr, squeeze_true hc]
    simp [allBlank, hc]
  rw [Request.parse?, collapse_postTest d p hne, ← isSome_get_search?_postTest hd' hp']
  refine ⟨fun hg => ?_, fun hg hpost => ?_, fun hg hpost => ?_⟩
  · obtain ⟨path, h⟩ := find?_of_get_search? hg
    exact ⟨unescape path, by rw [h]; rfl⟩
  · obtain ⟨body, h⟩ := find?_of_hidesPost hd' hg hpost
    refine ⟨body, ?_⟩
    have hpath : unescape " $ post ".toList = " $ post ".toList := by decide
    rw [h, Option.bind_some, resolve?, hpath]
    cases Body.resolve? body <;> rfl
  · rw [find?_of_not_hides hd' hp' hb' hs hg hpost, trimEnd_collapse, Option.bind_some, resolve?]
    cases Body.resolve? (collapse b) <;> rfl

theorem parse?_postTest_items : Raw "adds  one".toList ∧ Raw "/items".toList ∧
    allBlank "mempty".toList = false ∧
    ¬HidesGet (tighten "adds  one".toList) (tighten "/items".toList) (collapse "mempty".toList) ∧
    ¬HidesPost (tighten "adds  one".toList) (tighten "/items".toList) ∧
    Request.parse? [] (postTest "adds  one".toList "/items".toList "mempty".toList) =
      some ⟨.post, "/items".toList, [], none⟩ := by
  have hd : Raw "adds  one".toList := by decide
  have hp : Raw "/items".toList := by decide
  have hb : allBlank "mempty".toList = false := by decide
  have hg : ¬HidesGet (tighten "adds  one".toList) (tighten "/items".toList)
      (collapse "mempty".toList) := by
    rw [← isSome_get_search?_postTest (raw_tighten hd) (raw_tighten hp)]
    decide +kernel
  have hpost : ¬HidesPost (tighten "adds  one".toList) (tighten "/items".toList) := by
    rintro ⟨-, c, s, hs, hc⟩
    obtain ⟨rfl, -⟩ := List.cons.inj hs
    revert hc
    decide
  refine ⟨hd, hp, hb, hg, hpost, ?_⟩
  rw [(parse?_postTest hd hp hb []).2.2 hg hpost]
  decide +kernel

/-- A body written as a literal. -/
inductive BodyLiteral : Text → Prop
  | string {raw : Text} : Raw raw → BodyLiteral ('"' :: (raw ++ ['"']))
  | quasi {content : Text} : contains quasiClose content = false →
    BodyLiteral (quasiOpen ++ content ++ quasiClose)

/-- **Not every post is sent as one to its path**: a description may end with the word `get`. -/
theorem not_post_of_postTest : ¬∀ (d p b : Text) (bindings : Bindings) (r : Request), Raw d →
    Raw p → BodyLiteral b → Request.parse? bindings (postTest d p b) = some r →
      r.method = .post ∧ r.path = unescape p := by
  intro h
  have hd : Raw "get ".toList := by decide
  have hp : Raw "/a".toList := by decide
  have hparse : Request.parse? [] (postTest "get ".toList "/a".toList "\"\"".toList) =
      some ⟨.get, " $ post ".toList, [], none⟩ := by decide +kernel
  have := (h _ _ _ _ _ hd hp (.string .nil) hparse).1
  cases this

end SpecHarvest.RequestExpr
