import SpecHarvest.Proofs.Bytes.Place
import SpecHarvest.Proofs.RequestExpr.Search
import SpecHarvest.Proofs.Source.Reader

/-!
# The forms of requests as patterns

* `Form.Shows f tail e`: what follows the keyword of a form is an expression of the form, told by
  its parts: white space, literals, an identifier, and an expression up to the end of the text.
  `Form.after?_eq_some_iff`: that is what is read there.
* `Form.ShowsAt f s i e`: at the byte offset `i` the keyword of the form stands on its own, and the
  whole pattern of the form matches there.
* `leftmost_places`: a keyword is found at its least place, and each form is read at the least place
  where its pattern matches, and nowhere only if it matches nowhere.
-/

namespace SpecHarvest.RequestExpr

open Text Source Bytes

/-! ## Patterns -/

/-- A text is white space, an expression without white space at its ends, and white space that may
be missing. -/
def Last (e t : Text) : Prop :=
  e ≠ [] ∧ trim e = e ∧ ∃ (g : Space) (z : Gap), t = g.1 ++ (e ++ z.1)

/-- What follows the keyword of a form is an expression of the form. -/
inductive Form.Shows : Form → Text → RequestExpr → Prop
  /-- `get "path"` -/
  | get (g : Space) {path : Text} (rest : Text) : Raw path →
    Shows .get (g.1 ++ '"' :: (path ++ '"' :: rest)) (.get path)
  /-- `post "path" body` -/
  | post (g : Space) {path body rest : Text} : Raw path → Last body rest →
    Shows .post (g.1 ++ '"' :: (path ++ '"' :: rest)) (.post path body)
  /-- `request method "path" arguments` -/
  | general (g g' : Space) {method path arguments rest : Text} : method ≠ [] →
    method.all isIdentChar = true → Raw path → Last arguments rest →
    Shows .general (g.1 ++ (method ++ (g'.1 ++ '"' :: (path ++ '"' :: rest))))
      (.general method path arguments)

theorem lastExpr?_eq_some_iff {t e : Text} : lastExpr? t = some e ↔ Last e t := by
  rw [lastExpr?, Option.bind_eq_some_iff]
  constructor
  · rintro ⟨s, hs, h⟩
    obtain ⟨⟨g, rfl⟩, htrim⟩ := blanks?_eq_some_iff.1 hs
    split at h
    · cases h
    · next hblank =>
      obtain rfl := Option.some.inj h
      obtain ⟨z, hz, hzb⟩ := exists_trimEnd_append s
      refine ⟨mt trimEnd_eq_nil_iff.1 hblank, ?_, g, ⟨z, hzb⟩, congrArg (g.1 ++ ·) hz⟩
      rw [trim_trimEnd, trim, htrim]
  · rintro ⟨hne, htrim, g, z, rfl⟩
    have hstart : trimStart e = e := by rw [← htrim, trimStart_trim]
    have hend : trimEnd e = e := by rwa [trim, hstart] at htrim
    have hwhole : trimStart (e ++ z.1) = e ++ z.1 := by
      rw [trimStart_append, hstart, if_neg hne]
    have hblank : ¬allBlank (e ++ z.1) = true := by
      rw [← trimStart_eq_nil_iff, hwhole]
      simp [hne]
    refine ⟨_, blanks?_space g hwhole, ?_⟩
    rw [if_neg hblank, trimEnd_append_of_allBlank e z.2, hend]

/-- A literal does not start with white space. -/
theorem blanks?_literal (g : Space) (s : Text) : blanks? (g.1 ++ '"' :: s) = some ('"' :: s) :=
  blanks?_space g (trimStart_cons_of_not_blank (by decide) s)

/-- **What is read after a keyword** is what the pattern of the form says. -/
theorem Form.after?_eq_some_iff {f : Form} {tail : Text} {e : RequestExpr} :
    f.after? tail = some e ↔ f.Shows tail e := by
  constructor
  · intro h
    cases f
    all_goals
      simp only [after?, Option.bind_eq_bind, Option.bind_eq_some_iff, Option.pure_def,
        Option.some.injEq, Prod.exists] at h
    case get =>
      obtain ⟨s, hs, path, rest, hq, rfl⟩ := h
      obtain ⟨⟨g, rfl⟩, -⟩ := blanks?_eq_some_iff.1 hs
      obtain ⟨hraw, rfl⟩ := quoted?_eq_some_iff.1 hq
      exact .get g rest hraw
    case post =>
      obtain ⟨s, hs, path, rest, hq, body, hb, rfl⟩ := h
      obtain ⟨⟨g, rfl⟩, -⟩ := blanks?_eq_some_iff.1 hs
      obtain ⟨hraw, rfl⟩ := quoted?_eq_some_iff.1 hq
      exact .post g hraw (lastExpr?_eq_some_iff.1 hb)
    case general =>
      obtain ⟨s, hs, method, t, hm, u, hu, path, rest, hq, arguments, ha, rfl⟩ := h
      obtain ⟨⟨g, rfl⟩, -⟩ := blanks?_eq_some_iff.1 hs
      obtain ⟨rfl, hne, hident, -⟩ := identifier?_eq_some_iff.1 hm
      obtain ⟨⟨g', rfl⟩, -⟩ := blanks?_eq_some_iff.1 hu
      obtain ⟨hraw, rfl⟩ := quoted?_eq_some_iff.1 hq
      exact .general g g' hne hident hraw (lastExpr?_eq_some_iff.1 ha)
  · intro h
    cases h with
    | get g rest hraw => simp [after?, blanks?_literal, hraw.quoted?]
    | post g hraw hlast =>
      simp [after?, blanks?_literal, hraw.quoted?, lastExpr?_eq_some_iff.2 hlast]
    | @general g g' method path arguments rest hne hident hraw hlast =>
      have hend : endsHere isIdentChar (g'.1 ++ '"' :: (path ++ '"' :: rest)) = true :=
        endsHere_space (fun _ => isIdentChar_of_isBlank) g' _
      have hmethod := identifier?_eq_some_iff.2 ⟨rfl, hne, hident, hend⟩
      simp [after?, blanks?_space g (trimStart_word hne hident _), hmethod, blanks?_literal,
        hraw.quoted?, lastExpr?_eq_some_iff.2 hlast]

/-! ## The leftmost match -/

theorem Form.isWord_keyword (f : Form) : IsWord f.keyword := by
  cases f <;> decide

/-- At an offset the keyword of a form stands on its own, and what follows it matches. -/
structure Form.ShowsAt (f : Form) (s : Text) (i : Nat) (e : RequestExpr) : Prop where
  word : WordAt f.keyword s i
  shows : ∃ tail, At s (i + width f.keyword) tail ∧ f.Shows tail e

theorem Form.showsAt_iff {f : Form} {s : Text} {i : Nat} {e : RequestExpr} :
    f.ShowsAt s i e ↔ ∃ front tail, StandsAlone none f.keyword s front tail ∧ width front = i ∧
      f.after? tail = some e := by
  have hat {front tail : Text} (hp : StandsAlone none f.keyword s front tail) :
      At s (width front + width f.keyword) tail :=
    ⟨front ++ f.keyword, hp.eq, width_append _ _⟩
  constructor
  · rintro ⟨hword, tail, htail, hshows⟩
    obtain ⟨front, tail', hp, rfl⟩ := (wordAt_iff f.isWord_keyword).1 hword
    obtain rfl := (hat hp).unique htail
    exact ⟨front, tail', hp, rfl, after?_eq_some_iff.2 hshows⟩
  · rintro ⟨front, tail, hp, rfl, ha⟩
    exact ⟨(wordAt_iff f.isWord_keyword).2 ⟨front, tail, hp, rfl⟩, tail, hat hp,
      after?_eq_some_iff.1 ha⟩

/-- A reader finds the expression of a form at the least offset where the form matches, and nothing
only if it matches nowhere. -/
def ReadsLeftmost (read : Text → Option RequestExpr) (f : Form) (s : Text) : Prop :=
  (∀ e, read s = some e ↔
    ∃ i, IsLeast {i | ∃ e', f.ShowsAt s i e'} i ∧ f.ShowsAt s i e) ∧
  (read s = none ↔ ∀ i e, ¬f.ShowsAt s i e)

/-- **A form is read at its leftmost match.** -/
theorem Form.readsLeftmost (f : Form) (s : Text) : ReadsLeftmost f.search? f s := by
  have hwidth {front tail front' tail' : Text} (hp : StandsAlone none f.keyword s front tail)
      (hp' : StandsAlone none f.keyword s front' tail') :
      width front ≤ width front' ↔ front.length ≤ front'.length :=
    width_le_width_iff hp.isPrefix_front hp'.isPrefix_front
  refine ⟨fun e => ?_, ?_⟩
  · rw [search?, findSome?_afterKeyword_eq_some_iff]
    constructor
    · rintro ⟨front, tail, hp, ha, hmin⟩
      have hshows := showsAt_iff.2 ⟨front, tail, hp, rfl, ha⟩
      refine ⟨width front, ⟨⟨e, hshows⟩, fun j hj => ?_⟩, hshows⟩
      obtain ⟨e', hj⟩ := hj
      obtain ⟨front', tail', hp', rfl, ha'⟩ := showsAt_iff.1 hj
      refine (hwidth hp hp').2 (Nat.le_of_not_lt fun hlt => ?_)
      rw [hmin front' tail' hp' hlt] at ha'
      cases ha'
    · rintro ⟨i, hleast, hshows⟩
      obtain ⟨front, tail, hp, rfl, ha⟩ := showsAt_iff.1 hshows
      refine ⟨front, tail, hp, ha, fun front' tail' hp' hlt => ?_⟩
      rw [Option.eq_none_iff_forall_ne_some]
      intro e' ha'
      have hle := hleast.2 ⟨e', showsAt_iff.2 ⟨front', tail', hp', rfl, ha'⟩⟩
      exact Nat.not_lt_of_le ((hwidth hp hp').1 hle) hlt
  · rw [search?, findSome?_afterKeyword_eq_none_iff]
    constructor
    · intro hnone i e hshows
      obtain ⟨front, tail, hp, -, ha⟩ := showsAt_iff.1 hshows
      rw [hnone front tail hp] at ha
      cases ha
    · intro hall front tail hp
      rw [Option.eq_none_iff_forall_ne_some]
      exact fun e ha => hall _ e (showsAt_iff.2 ⟨front, tail, hp, rfl, ha⟩)

/-- **The search of a keyword misses nothing.** From a character boundary on, a keyword is found at
the least offset where it stands on its own, and not found only if it stands nowhere; the search
over bytes agrees. So each form of requests is read at its leftmost match, and not read only if it
matches nowhere. -/
theorem leftmost_places {word s : Text} {start : Nat} (hw : IsWord word)
    (hs : (cutAt? start s).isSome = true) :
    (∀ i, keywordAt? word start s = some i ↔ IsLeast {i | start ≤ i ∧ WordAt word s i} i) ∧
    (keywordAt? word start s = none ↔ ∀ i, start ≤ i → ¬WordAt word s i) ∧
    (Small s → findWord s word start = .ok (keywordAt? word start s)) ∧
    ReadsLeftmost get? .get s ∧ ReadsLeftmost post? .post s ∧
      ReadsLeftmost general? .general s := by
  obtain ⟨⟨front, rest⟩, hcut⟩ := Option.isSome_iff_exists.1 hs
  obtain ⟨hfront, hwidth⟩ := cutAt?_eq_some hcut
  have hat : At s start rest := ⟨front, hfront, hwidth⟩
  obtain ⟨hsome, hnone⟩ := keywordAt?_isLeast hw hat
  refine ⟨hsome, hnone, fun hsmall => findWord_at_boundary hw hsmall hat, ?_⟩
  rw [funext get?_eq_search?, funext post?_eq_search?, funext general?_eq_search?]
  exact ⟨Form.readsLeftmost .get s, Form.readsLeftmost .post s, Form.readsLeftmost .general s⟩

/-- A keyword within words, next to a letter outside ASCII, before another word, and with a path. -/
def gets : Text := "get_ budget éget get x get \"/a\" get \"/b\"".toList

theorem leftmost_places_gets :
    (IsWord "get".toList ∧ (cutAt? 2 gets).isSome = true) ∧
      IsLeast {i | 2 ≤ i ∧ WordAt "get".toList gets i} 14 ∧
      ∃ i, IsLeast {i | ∃ e, Form.get.ShowsAt gets i e} i ∧
        Form.get.ShowsAt gets i (.get "/a".toList) := by
  have hw : IsWord "get".toList := by decide
  have hs : (cutAt? 2 gets).isSome = true := by decide
  obtain ⟨hword, -, -, hget, -⟩ := leftmost_places hw hs
  exact ⟨⟨hw, hs⟩, (hword 14).1 (by decide), (hget.1 _).1 (by decide)⟩

end SpecHarvest.RequestExpr
