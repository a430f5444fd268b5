import SpecHarvest.ConfigMap
import SpecHarvest.Proofs.Assoc
import SpecHarvest.Proofs.Source.Reader
import SpecHarvest.Proofs.Text.Occurrence

/-!
# The list of default specs

The main module lists the specs that run under the default configuration. The reader of a listed
spec takes the whole run of characters without white space after the comma of the pair, up to its
last closing parenthesis, and so it takes all specs that follow without any white space as well.

* `Listed`: a listed spec as it is written, `ListHead`: what stands before the list.
* `Listed.isTight`: no white space from the comma in front of a spec up to its end.
* `entryHere?_text`: how far the reader of one spec goes, `exists_run`: where the run of characters
  ends that a spec is in.
* `entryNames_listText`: the names that are read in a list.
* `ofMain_mainText`: the configurations of a main module that lists specs.
-/

namespace SpecHarvest.ConfigMap

open Text Source

/-! ## Lists as they are written -/

/-- A comma and the white space around it. -/
structure Comma where
  left : Gap
  right : Gap

/-- A comma without any white space. -/
def Comma.tight : Comma := ⟨Gap.none, Gap.none⟩

/-- The comma as it is written. -/
def Comma.text (k : Comma) : Text := k.left.1 ++ ',' :: k.right.1

/-- A listed spec, `("Name", Module.spec)`. -/
structure Listed where
  name : Text
  value : Text
  /-- The comma between name and value. -/
  comma : Comma
  /-- The comma in front of the spec, which is not written before the first one. -/
  front : Comma
  name_ne : name ≠ []
  quote_not_mem : '"' ∉ name
  name_brackets : ')' ∉ name ∧ ']' ∉ name
  value_ne : value ≠ []
  value_tight : value.all (!isBlank ·) = true
  value_brackets : ')' ∉ value ∧ ']' ∉ value

namespace Listed

/-- The spec up to its closing parenthesis. -/
def body (e : Listed) : Text :=
  '(' :: '"' :: (e.name ++ '"' :: (e.comma.text ++ e.value))

/-- The spec as it is written. -/
def text (e : Listed) : Text := e.body ++ [')']

/-- Whether there is no white space from the comma in front of the spec up to its end. -/
def isTight (e : Listed) : Bool := (e.front.text ++ e.text).all (!isBlank ·)

end Listed

/-- Listed specs, each with the comma in front of it. -/
def followers (es : List Listed) : Text := es.flatMap fun e => e.front.text ++ e.text

/-- A list of specs as it is written. -/
def listText : List Listed → Text
  | [] => []
  | e :: es => e.text ++ followers es

/-- The names of the specs that are read: of the first, and of those that are not tight. -/
def readNames : List Listed → List Text
  | [] => []
  | e :: es => e.name :: (es.filter (!·.isTight)).map (·.name)

/-- What stands before a list: `specs = uncurry describe <$> [`, with any white space. -/
inductive ListHead : Text → Prop
  | intro (g₁ g₂ g₃ g₄ : Gap) (g : Space) : ListHead ("specs".toList ++ (g₁.1 ++ '=' :: (g₂.1 ++
      ("uncurry".toList ++ (g.1 ++ ("describe".toList ++ (g₃.1 ++ ("<$>".toList ++
        (g₄.1 ++ ['['])))))))))

/-- A main module with a list of specs. -/
def mainText (front head list back : Text) : Text := front ++ (head ++ (list ++ ']' :: back))

/-! ## Characters of a list -/

theorem not_mem_gap {c : Char} (hc : isBlank c = false) (g : Gap) : c ∉ g.1 := fun h => by
  rw [List.all_eq_true.1 g.2 c h] at hc
  cases hc

theorem Comma.not_mem_text {c : Char} (hc : isBlank c = false) (h : c ≠ ',') (k : Comma) :
    c ∉ k.text := by
  simp [Comma.text, not_mem_gap hc, h]

namespace Listed

theorem isBlank_of_mem_value (e : Listed) {c : Char} (hc : c ∈ e.value) : isBlank c = false := by
  simpa using List.all_eq_true.1 e.value_tight c hc

theorem paren_not_mem_body (e : Listed) : ')' ∉ e.body := by
  have hk := e.comma.not_mem_text (c := ')') (by decide) (by decide)
  simp [body, e.name_brackets.1, e.value_brackets.1, hk]

theorem bracket_not_mem_text (e : Listed) : ']' ∉ e.text := by
  have hk := e.comma.not_mem_text (c := ']') (by decide) (by decide)
  simp [text, body, e.name_brackets.2, e.value_brackets.2, hk]

end Listed

theorem bracket_not_mem_followers (es : List Listed) : ']' ∉ followers es := by
  intro h
  obtain ⟨e, -, he⟩ := List.mem_flatMap.1 h
  rcases List.mem_append.1 he with he | he
  · exact e.front.not_mem_text (by decide) (by decide) he
  · exact e.bracket_not_mem_text he

theorem bracket_not_mem_listText (es : List Listed) : ']' ∉ listText es := by
  cases es with
  | nil => exact List.not_mem_nil
  | cons e es =>
    rw [listText, List.mem_append, not_or]
    exact ⟨e.bracket_not_mem_text, bracket_not_mem_followers es⟩

/-! ## One listed spec -/

theorem plainQuoted?_literal {name : Text} (hne : name ≠ []) (hq : '"' ∉ name) (r : Text) :
    plainQuoted? ('"' :: (name ++ '"' :: r)) = some (name, r) := by
  have hall : ∀ c ∈ name, (c != '"') = true := by
    intro c hc
    rw [bne_iff_ne]
    rintro rfl
    exact hq hc
  have htake : (name ++ '"' :: r).takeWhile (· != '"') = name := by
    rw [List.takeWhile_append_of_pos hall, List.takeWhile_cons_of_neg (by simp), List.append_nil]
  have hdrop : (name ++ '"' :: r).dropWhile (· != '"') = '"' :: r := by
    rw [List.dropWhile_append_of_pos hall, List.dropWhile_cons_of_neg (by simp)]
  simp only [plainQuoted?, after?, htake, hdrop, Option.bind_eq_bind, Option.bind_some, if_true,
    List.isEmpty_iff, if_neg hne]

/-- A run of characters goes on over a closing parenthesis. -/
theorem run_paren {u : Text} (hu : ∀ c ∈ u, isBlank c = false) (y : Text) :
    (u ++ ')' :: y).takeWhile (!isBlank ·) = u ++ ')' :: y.takeWhile (!isBlank ·) ∧
      (u ++ ')' :: y).dropWhile (!isBlank ·) = y.dropWhile (!isBlank ·) := by
  have hall : ∀ c ∈ u, (!isBlank c) = true := fun c hc => by rw [hu c hc]; rfl
  have hparen : (!isBlank ')') = true := by decide
  rw [List.takeWhile_append_of_pos hall, List.dropWhile_append_of_pos hall,
    List.takeWhile_cons_of_pos (p := (!isBlank ·)) hparen,
    List.dropWhile_cons_of_pos (p := (!isBlank ·)) hparen]
  exact ⟨rfl, rfl⟩

/-- **How far the reader of a spec goes**: to the last closing parenthesis of the run of characters
without white space that the value stands in. -/
theorem entryHere?_text (e : Listed) {rest w y : Text} (hrest : ')' :: rest = w ++ ')' :: y)
    (hw : ∀ c ∈ w, isBlank c = false) (hy : ')' ∉ y.takeWhile (!isBlank ·)) :
    entryHere? (e.text ++ rest) = some (e.name, y) := by
  have htext : e.text ++ rest = '(' :: '"' :: (e.name ++ '"' :: (e.comma.left.1 ++
      ',' :: (e.comma.right.1 ++ ((e.value ++ w) ++ ')' :: y)))) := by
    rw [List.append_assoc e.value, ← hrest]
    simp [Listed.text, Listed.body, Comma.text]
  have hrun : ∀ c ∈ e.value ++ w, isBlank c = false := by
    intro c hc
    rcases List.mem_append.1 hc with hc | hc
    · exact e.isBlank_of_mem_value hc
    · exact hw c hc
  obtain ⟨htake, hdrop⟩ := run_paren hrun y
  have hcut : cutLast? ')' (e.value ++ w ++ ')' :: y.takeWhile (!isBlank ·)) =
      some (e.value ++ w, y.takeWhile (!isBlank ·)) := cutLast?_eq_some_iff.2 ⟨rfl, hy⟩
  have hne : e.value ++ w ≠ [] := by simp [e.value_ne]
  have hstart : trimStart (e.value ++ w ++ ')' :: y) = e.value ++ w ++ ')' :: y := by
    obtain ⟨c, v, hv⟩ := List.exists_cons_of_ne_nil e.value_ne
    rw [hv]
    exact trimStart_cons_of_not_blank (e.isBlank_of_mem_value (by simp [hv])) _
  have hcomma : trimStart (e.comma.left.1 ++ ',' :: (e.comma.right.1 ++
      ((e.value ++ w) ++ ')' :: y))) = ',' :: (e.comma.right.1 ++ ((e.value ++ w) ++ ')' :: y)) :=
    trimStart_gap e.comma.left (trimStart_cons_of_not_blank (by decide) _)
  have hvalue : trimStart (e.comma.right.1 ++ ((e.value ++ w) ++ ')' :: y)) =
      (e.value ++ w) ++ ')' :: y := trimStart_gap e.comma.right hstart
  rw [htext]
  simp only [entryHere?, after?, plainQuoted?_literal e.name_ne e.quote_not_mem, hcomma, hvalue,
    htake, hdrop, hcut, Option.bind_eq_bind, Option.bind_some, if_true, List.isEmpty_iff,
    if_neg hne, List.takeWhile_append_dropWhile]

/-! ## The run of characters that a spec is in -/

theorem takeWhile_append_of_mem {p : Char → Bool} {u : Text} (h : ∃ c ∈ u, p c = false) (v : Text) :
    (u ++ v).takeWhile p = u.takeWhile p := by
  rw [List.takeWhile_append, if_neg]
  intro hlen
  obtain ⟨c, hc, hp⟩ := h
  have heq : u.takeWhile p = u := (List.takeWhile_prefix p).eq_of_length hlen
  rw [List.takeWhile_eq_self_iff.1 heq c hc] at hp
  cases hp

/-- A spec that is not tight has white space before its closing parenthesis. -/
theorem Listed.not_mem_takeWhile {e : Listed} (h : e.isTight = false) (r : Text) :
    ')' ∉ (e.front.text ++ (e.text ++ r)).takeWhile (!isBlank ·) := by
  have hpre : ')' ∉ e.front.text ++ e.body := by
    rw [List.mem_append, not_or]
    exact ⟨e.front.not_mem_text (by decide) (by decide), e.paren_not_mem_body⟩
  have hblank : ∃ c ∈ e.front.text ++ e.body, (!isBlank c) = false := by
    rw [Listed.isTight, Listed.text, ← List.append_assoc, List.all_append, Bool.and_eq_false_iff,
      List.all_eq_false] at h
    rcases h with ⟨c, hc, hb⟩ | h
    · exact ⟨c, hc, Bool.eq_false_iff.2 hb⟩
    · exact absurd h (by decide)
  rw [Listed.text, List.append_assoc, ← List.append_assoc, takeWhile_append_of_mem hblank]
  exact fun hm => hpre ((List.takeWhile_prefix _).subset hm)

/-- **Where the run ends**: after the specs that follow without any white space. -/
theorem exists_run (es : List Listed) (trail : Gap) : ∃ w : Text, (∀ c ∈ w, isBlank c = false) ∧
    ')' :: (followers es ++ trail.1) =
      w ++ ')' :: (followers (es.dropWhile (·.isTight)) ++ trail.1) ∧
    ')' ∉ (followers (es.dropWhile (·.isTight)) ++ trail.1).takeWhile (!isBlank ·) := by
  induction es with
  | nil =>
    refine ⟨[], by simp, rfl, fun h => ?_⟩
    exact not_mem_gap (by decide) trail ((List.takeWhile_prefix _).subset h)
  | cons e es ih =>
    obtain ⟨w, hw, hrun, hy⟩ := ih
    have hcons : followers (e :: es) ++ trail.1 =
        e.front.text ++ (e.text ++ (followers es ++ trail.1)) := by simp [followers]
    cases ht : e.isTight with
    | false =>
      rw [List.dropWhile_cons_of_neg (by simp [ht])]
      refine ⟨[], by simp, rfl, ?_⟩
      rw [hcons]
      exact e.not_mem_takeWhile ht _
    | true =>
      rw [List.dropWhile_cons_of_pos ht]
      rw [Listed.isTight, Listed.text, ← List.append_assoc, List.all_append, Bool.and_eq_true] at ht
      refine ⟨')' :: (e.front.text ++ e.body ++ w), ?_, ?_, hy⟩
      · intro c hc
        rw [List.mem_cons, List.mem_append] at hc
        rcases hc with rfl | hc | hc
        · decide
        · simpa using List.all_eq_true.1 ht.1 c hc
        · exact hw c hc
      · rw [hcons, Listed.text, List.append_assoc, List.singleton_append, hrun]
        simp

/-! ## The names of a list -/

/-- No spec starts before the next opening parenthesis. -/
theorem entryNames_skip {x : Text} (hx : '(' ∉ x) {n : Nat} {s : Text}
    (hn : (x ++ s).length ≤ n) : ∃ m, s.length ≤ m ∧ entryNames n (x ++ s) = entryNames m s := by
  induction x generalizing n with
  | nil => exact ⟨n, hn, rfl⟩
  | cons c x ih =>
    rw [List.mem_cons, not_or] at hx
    cases n with
    | zero => simp at hn
    | succ n =>
      obtain ⟨m, hm, heq⟩ := ih hx.2 (n := n) (by simpa using hn)
      have hnone : entryHere? (c :: (x ++ s)) = none := by simp [entryHere?, after?, hx.1]
      refine ⟨m, hm, ?_⟩
      rw [List.cons_append, entryNames, hnone, heq]

theorem entryNames_of_not_mem {x : Text} (hx : '(' ∉ x) {n : Nat} (hn : x.length ≤ n) :
    entryNames n x = [] := by
  obtain ⟨m, -, heq⟩ := entryNames_skip hx (s := []) (by simpa using hn)
  rw [List.append_nil] at heq
  rw [heq]
  cases m <;> rfl

theorem entryNames_of_some {c : Char} {s rest name : Text}
    (h : entryHere? (c :: s) = some (name, rest)) (n : Nat) :
    entryNames (n + 1) (c :: s) = name :: entryNames n rest := by
  rw [entryNames, h]

theorem filter_dropWhile_not {α : Type} (p : α → Bool) (es : List α) :
    (es.dropWhile p).filter (!p ·) = es.filter (!p ·) := by
  induction es with
  | nil => rfl
  | cons e es ih =>
    cases he : p e with
    | false => rw [List.dropWhile_cons_of_neg (by simp [he])]
    | true => rw [List.dropWhile_cons_of_pos he, ih, List.filter_cons_of_neg (by simp [he])]

/-- **The names of a list**: that of the first spec, and those of the specs that are not tight. -/
theorem entryNames_text (e : Listed) (es : List Listed) (trail : Gap) {n : Nat}
    (hn : (e.text ++ (followers es ++ trail.1)).length ≤ n) :
    entryNames n (e.text ++ (followers es ++ trail.1)) = readNames (e :: es) := by
  -- on the number of specs, since those that are tight are passed over together
  induction hk : es.length using Nat.strongRecOn generalizing e es n with
  | ind k ih =>
    obtain ⟨w, hw, hrun, hy⟩ := exists_run es trail
    have hread := entryHere?_text e hrun hw hy
    have hlen := congrArg List.length hrun
    have hopen : e.text ++ (followers es ++ trail.1) =
        '(' :: (e.text.tail ++ (followers es ++ trail.1)) := rfl
    rw [hopen] at hn hread ⊢
    obtain ⟨m, rfl⟩ : ∃ m, n = m + 1 := ⟨n - 1, by rw [List.length_cons] at hn; omega⟩
    have hm : (followers (es.dropWhile (·.isTight)) ++ trail.1).length ≤ m := by
      simp only [List.length_cons, List.length_append] at hn hlen ⊢
      omega
    rw [entryNames_of_some hread, readNames, ← filter_dropWhile_not]
    congr 1
    have hdrop := (List.dropWhile_suffix (l := es) (·.isTight)).length_le
    cases hd : es.dropWhile (·.isTight) with
    | nil =>
      rw [hd] at hm
      exact entryNames_of_not_mem (not_mem_gap (by decide) trail) hm
    | cons e' es' =>
      have hloose : e'.isTight = false := by
        have hhead := List.head_dropWhile_not Listed.isTight (l := es) (by simp [hd])
        simpa only [hd, List.head_cons] using hhead
      have hcomma : '(' ∉ e'.front.text := e'.front.not_mem_text (by decide) (by decide)
      have hcons : followers (e' :: es') ++ trail.1 =
          e'.front.text ++ (e'.text ++ (followers es' ++ trail.1)) := by simp [followers]
      rw [hd, hcons] at hm
      rw [hd, List.length_cons] at hdrop
      obtain ⟨m', hm', heq⟩ := entryNames_skip hcomma hm
      rw [hcons, heq, ih es'.length (by omega) e' es' hm' rfl,
        List.filter_cons_of_pos (by simp [hloose]), List.map_cons, readNames]

theorem entryNames_listText (es : List Listed) (lead trail : Gap) {n : Nat}
    (hn : (lead.1 ++ (listText es ++ trail.1)).length ≤ n) :
    entryNames n (lead.1 ++ (listText es ++ trail.1)) = readNames es := by
  obtain ⟨m, hm, heq⟩ := entryNames_skip (not_mem_gap (by decide) lead) hn
  rw [heq]
  cases es with
  | nil => exact entryNames_of_not_mem (not_mem_gap (by decide) trail) hm
  | cons e es =>
    rw [listText, List.append_assoc] at hm ⊢
    exact entryNames_text e es trail hm

/-! ## The list in the main module -/

theorem specsListHere?_head {head list : Text} (h : ListHead head) (hl : ']' ∉ list) (back : Text) :
    specsListHere? (head ++ (list ++ ']' :: back)) = some list := by
  obtain ⟨g₁, g₂, g₃, g₄, g⟩ := h
  have hafter : ∀ lit r : Text, after? lit (lit ++ r) = some r := fun _ _ =>
    after?_eq_some_iff.2 rfl
  have hgap : ∀ (g : Gap) (c : Char) (r : Text), isBlank c = false →
      trimStart (g.1 ++ c :: r) = c :: r := fun g c r hc =>
    trimStart_gap g (trimStart_cons_of_not_blank hc r)
  have hdescribe : ∀ r, blanks? (g.1 ++ ("describe".toList ++ r)) = some ("describe".toList ++ r) :=
    fun r => blanks?_space g (trimStart_cons_of_not_blank (by decide) _)
  have huncurry : ∀ r, trimStart (g₂.1 ++ ("uncurry".toList ++ r)) = "uncurry".toList ++ r :=
    fun r => hgap g₂ _ _ (by decide)
  have harrow : ∀ r, trimStart (g₃.1 ++ ("<$>".toList ++ r)) = "<$>".toList ++ r :=
    fun r => hgap g₃ _ _ (by decide)
  have hequals : ∀ r, after? ['='] ('=' :: r) = some r := fun r => hafter ['='] r
  have hopen : ∀ r, after? ['['] ('[' :: r) = some r := fun r => hafter ['['] r
  have hcut : cut? [']'] (list ++ ']' :: back) = some (list, back) :=
    cut?_singleton_eq_some_iff.2 ⟨rfl, hl⟩
  simp only [specsListHere?, List.append_assoc, List.cons_append, List.nil_append, hafter,
    hgap g₁ '=' _ (by decide), hequals, huncurry, hdescribe, harrow, hgap g₄ '[' _ (by decide),
    hopen, hcut, Option.bind_eq_bind, Option.bind_some, Option.pure_def]

/-- The list is not found where the word `specs` starts too early. -/
theorem specsListHere?_of_overlap {u : Text} (hu : u ≠ []) (hn : ¬"specs".toList <+: u) (x : Text) :
    specsListHere? (u ++ ("specs".toList ++ x)) = none := by
  rw [Option.eq_none_iff_forall_ne_some]
  intro list hlist
  simp only [specsListHere?, Option.bind_eq_bind, Option.bind_eq_some_iff] at hlist
  obtain ⟨r, hr, s, hs, -⟩ := hlist
  rw [after?_eq_some_iff] at hr hs
  rcases List.append_eq_append_iff.1 hr with ⟨a, hword, hr⟩ | ⟨b, hb, -⟩
  · have hlen := congrArg List.length hword
    rw [List.length_append] at hlen
    have hpos := List.length_pos_iff.2 hu
    rcases List.append_eq_append_iff.1 hr with ⟨a', rfl, -⟩ | ⟨b, hb, rfl⟩
    · rw [List.length_append] at hlen
      omega
    · -- what follows the word then goes on with a character of it
      cases b with
      | nil =>
        rw [hb, List.append_nil] at hlen
        omega
      | cons c b =>
        have hword : "specs".toList.all (fun d => !isBlank d && d != '=') = true := by decide
        obtain ⟨hblank, heq⟩ : isBlank c = false ∧ c ≠ '=' := by
          simpa using List.all_eq_true.1 hword c (by rw [hb]; simp)
        rw [List.cons_append, trimStart_cons_of_not_blank hblank] at hs
        exact heq (List.cons.inj hs).1
  · exact hn ⟨b, hb.symm⟩

theorem firstAt_specsList {head list : Text} (h : ListHead head) (hl : ']' ∉ list)
    {front : Text} (hfront : ¬"specs".toList <:+: front) (back : Text) :
    firstAt specsListHere? (mainText front head list back) = some list := by
  induction front with
  | nil =>
    have hhead := specsListHere?_head h hl back
    obtain ⟨c, r, hcr⟩ : ∃ c r, head ++ (list ++ ']' :: back) = c :: r :=
      List.exists_cons_of_ne_nil (by simp)
    rw [mainText, List.nil_append, hcr, firstAt, ← hcr, hhead, Option.some_or]
  | cons c front ih =>
    have hnone : specsListHere? (c :: front ++ (head ++ (list ++ ']' :: back))) = none := by
      obtain ⟨g₁, g₂, g₃, g₄, g⟩ := h
      rw [List.append_assoc "specs".toList]
      exact specsListHere?_of_overlap (List.cons_ne_nil c front) (fun hp => hfront hp.isInfix) _
    rw [mainText, List.cons_append, firstAt, ← List.cons_append, hnone, Option.none_or]
    exact ih fun hin => hfront (hin.trans (List.suffix_cons c front).isInfix)

theorem defaultSpecs_mainText {front head : Text} (hfront : ¬"specs".toList <:+: front)
    (h : ListHead head) (lead trail : Gap) (es : List Listed) (back : Text) :
    defaultSpecs (mainText front head (lead.1 ++ (listText es ++ trail.1)) back) = readNames es := by
  have hl : ']' ∉ lead.1 ++ (listText es ++ trail.1) := by
    simp only [List.mem_append, not_or]
    exact ⟨not_mem_gap (by decide) lead, bracket_not_mem_listText es,
      not_mem_gap (by decide) trail⟩
  rw [defaultSpecs, firstAt_specsList h hl hfront]
  exact entryNames_listText es lead trail (Nat.le_refl _)

theorem ofMain_of_no_fixture {main : Text} (h : ∀ f ∈ fixtures, fixtureSpec? f.1 main = none) :
    ofMain main = Assoc.ofList ((defaultSpecs main).map (·, defaultConfig)) := by
  refine congrArg Assoc.ofList (List.append_right_eq_self.2 ?_)
  refine List.filterMap_eq_nil_iff.2 fun f hf => ?_
  show (fixtureSpec? f.1 main).map _ = none
  rw [h f hf, Option.map_none]

/-- **The configurations of a main module that lists specs**, and sets up no fixture: the distinct
names of the first spec and of those that are not tight, in the order in which they are first met,
each with the default configuration. -/
theorem ofMain_mainText {front head back : Text} (hfront : ¬"specs".toList <:+: front)
    (h : ListHead head) (lead trail : Gap) (es : List Listed)
    (hfixtures : ∀ f ∈ fixtures,
      fixtureSpec? f.1 (mainText front head (lead.1 ++ (listText es ++ trail.1)) back) = none) :
    ofMain (mainText front head (lead.1 ++ (listText es ++ trail.1)) back) =
      (readNames es).eraseDups.map (·, defaultConfig) := by
  rw [ofMain_of_no_fixture hfixtures, defaultSpecs_mainText hfront h]
  exact Assoc.ofList_map_const _ _

/-- The specs of `("A", A.spec), ("B",B.spec),("C",C.spec)`, of which the last one is tight. -/
def abcSpecs : List Listed := [
  ⟨"A".toList, "A.spec".toList, ⟨Gap.none, ⟨[' '], rfl⟩⟩, .tight, by decide, by decide, by decide,
    by decide, by decide, by decide⟩,
  ⟨"B".toList, "B.spec".toList, .tight, ⟨Gap.none, ⟨[' '], rfl⟩⟩, by decide, by decide, by decide,
    by decide, by decide, by decide⟩,
  ⟨"C".toList, "C.spec".toList, .tight, .tight, by decide, by decide, by decide, by decide,
    by decide, by decide⟩]

/-- What stands before a list, with single spaces. -/
def plainHead : Text := "specs = uncurry describe <$> [".toList

theorem listHead_plainHead : ListHead plainHead :=
  .intro ⟨[' '], rfl⟩ ⟨[' '], rfl⟩ ⟨[' '], rfl⟩ ⟨[' '], rfl⟩ ⟨[' '], by decide⟩

theorem ofMain_abcSpecs :
    ofMain "specs = uncurry describe <$> [(\"A\", A.spec), (\"B\",B.spec),(\"C\",C.spec)]".toList =
      [("A".toList, defaultConfig), ("B".toList, defaultConfig)] :=
  @ofMain_mainText [] plainHead [] (by decide) listHead_plainHead Gap.none Gap.none abcSpecs
    (by decide +kernel)

/-- **Not every listed spec gets a configuration.** -/
theorem not_ofMain_listed : ¬∀ (lead trail : Gap) (es : List Listed),
    (∀ f ∈ fixtures, fixtureSpec? f.1
      (mainText [] plainHead (lead.1 ++ (listText es ++ trail.1)) []) = none) →
    ofMain (mainText [] plainHead (lead.1 ++ (listText es ++ trail.1)) []) =
      (es.map (·.name)).eraseDups.map (·, defaultConfig) := by
  intro h
  have habc := h Gap.none Gap.none abcSpecs (by decide +kernel)
  exact absurd habc (by decide +kernel)

end SpecHarvest.ConfigMap
