import SpecHarvest.Block
import SpecHarvest.Proofs.Assoc
import SpecHarvest.Proofs.Bytes.Comment
import SpecHarvest.Proofs.Bytes.Header

/-!
# Segmentation over bytes

The segmenter goes over the lines of a source by an index and reads with a cursor what a line
declares. `nextBlock` is one step of it, up to the next test and over the lines that belong to the
test; `blocksFrom` takes such steps until the lines are at an end.

`segmentSource_eq`: indentations, line numbers and indices are in range, and the blocks are those of
`segment`. `small_of_mem_segment`: the texts that are read later are small.
-/

namespace SpecHarvest.Bytes

open Text Source

/-! ## Lines -/

/-- A line with its number and, unless it is blank, its indentation. -/
structure SourceLine where
  number : Nat
  indent : Option Nat
  text : Text

/-- The line after so many others. -/
def sourceLine (i : Nat) (text : Text) : Checked SourceLine := do
  let number ← add i 1
  let stripped := trimStart text
  if stripped.isEmpty then return ⟨number, none, text⟩
  else
    let indent ← sub (width text) (width stripped)
    return ⟨number, some indent, text⟩

/-- Lines after so many others. -/
def sourceLines (i : Nat) : List Text → Checked (List SourceLine)
  | [] => return []
  | text :: texts => do
    let line ← sourceLine i text
    return line :: (← sourceLines (i + 1) texts)

/-- A line as the segmenter holds it. -/
def SourceLine.of (l : Line) : SourceLine :=
  ⟨l.number, if l.isBlank then none else some l.indent, l.text⟩

theorem sourceLine_eq {i : Nat} (hi : i + 1 < 2 ^ 32) (text : Text) :
    sourceLine i text = .ok (.of ⟨i + 1, text⟩) := by
  have hw := congrArg width (takeWhile_append_trimStart text)
  rw [width_append] at hw
  have hblank : (trimStart text).isEmpty = allBlank text := by
    rw [Bool.eq_iff_iff, List.isEmpty_iff]
    exact trimStart_eq_nil_iff
  rw [sourceLine, add_of_lt hi, ok_bind]
  show (if (trimStart text).isEmpty then _ else _) = _
  rw [hblank, SourceLine.of, Line.isBlank]
  cases allBlank text with
  | true => rfl
  | false =>
    rw [if_neg Bool.false_ne_true, sub_of_le (by omega), ok_bind, ← hw, Nat.add_sub_cancel]
    rfl

theorem sourceLines_eq {i : Nat} {texts : List Text} (h : i + texts.length < 2 ^ 32) :
    sourceLines i texts = .ok ((texts.mapIdx fun j text => ⟨i + j + 1, text⟩).map .of) := by
  induction texts generalizing i with
  | nil => rfl
  | cons text texts ih =>
    rw [List.length_cons] at h
    rw [sourceLines, sourceLine_eq (by omega), ok_bind, ih (by omega), ok_bind, List.mapIdx_cons]
    simp only [Nat.add_right_comm i 1, Nat.add_assoc]
    rfl

theorem length_pieces_le (cut : Char → Bool) (s : Text) : (pieces cut s).length ≤ width s + 1 := by
  induction s with
  | nil => rw [pieces, List.length_singleton]; exact Nat.le_add_left _ _
  | cons c s ih =>
    have := c.utf8Size_pos
    rw [pieces, width_cons]
    split
    · rw [List.length_cons]
      omega
    · rw [List.length_modifyHead]
      omega

/-! ## What a line declares -/

/-- Past the head of a declaration of the spec itself. -/
def specHead (s : Text) : Found Cursor := do
  let c ← (Cursor.start s).eatWord "spec".toList
  let c ← c.skip
  c.eat "::".toList <|> c.eat ['=']

/-- `let name = expression` -/
def readBinding (s : Text) : Found LineKind := do
  let c ← (Cursor.start s).eatWord "let".toList
  let c ← c.blanks
  let (name, c) ← c.takeIdentifier
  let c ← c.skip
  let c ← c.eat ['=']
  let rest ← c.rest
  if rest.isEmpty then failure else return .binding name (trim rest)

/-- The text of a declaration with one of some words. -/
def readDeclared (words : List Text) (s : Text) : Found Text := do
  let c ← firstOf (words.map fun word s => (Cursor.start s).eat word) s
  let c ← c.blanks
  let (text, _) ← c.takeQuoted
  return text

/-- The readers of declarations, in the order in which they are tried. -/
def declarations : List (Text → Found LineKind) :=
  [readBinding, fun s => do return .scope (← readDeclared ["describe".toList, "context".toList] s),
    fun s => do return .test (← readDeclared ["it".toList] s)]

/-- What a text, without white space at its start, declares. -/
def classify (s : Text) : Checked LineKind := do
  if Line.boilerplate.any (startsWith · s) then return .other
  else
    let head ← (specHead s).run
    if head.isSome then return .other
    else
      let kind ← (firstOf declarations s).run
      return kind.getD .other

/-- The same kind, with a small expression if it has one. -/
def SameKind (k k' : LineKind) : Prop :=
  k = k' ∧ ∀ name expr, k = .binding name expr → Small expr

section

variable {s : Text}

theorem readBinding_agrees (hs : Small s) : Agrees SameKind (readBinding s) (Line.binding? s) := by
  refine ((Cursor.reads_start hs).eatWord _).bind fun c r hc => hc.blanks.bind fun c r hc => ?_
  refine hc.takeIdentifier.bind_read fun name c r hc => hc.skip_bind fun c hc => ?_
  refine (hc.eat ['=']).bind fun c r hc => .lift hc.rest ?_
  show Agrees SameKind (if r.isEmpty then _ else _) (if r.isEmpty then _ else _)
  split
  · exact .failure
  · refine .pure ⟨rfl, fun n e he => ?_⟩
    obtain ⟨rfl, rfl⟩ := LineKind.binding.inj he
    exact hc.small.of_sublist (trim_sublist r)

theorem readDeclared_agrees (hs : Small s) (words : List Text) :
    Agrees Eq (readDeclared words s) (Line.declared? words s) := by
  have hwords : Agrees Cursor.Reads
      (firstOf (words.map fun word s => (Cursor.start s).eat word) s)
      (words.findSome? (after? · s)) :=
    firstOf_map_agrees words fun word _ => (Cursor.reads_start hs).eat word
  refine hwords.bind fun c r hc => hc.blanks.bind fun c r hc => ?_
  exact hc.takeQuoted.bind_read fun text c r _ => .pure rfl

theorem specHead_agrees (hs : Small s) : Agrees Cursor.Reads (specHead s)
    (word? "spec".toList s >>= fun r =>
      (after? "::".toList (trimStart r)).or (after? ['='] (trimStart r))) :=
  ((Cursor.reads_start hs).eatWord _).bind fun _ _ hc => hc.skip_bind fun _ hc =>
    (hc.eat _).orElse (hc.eat _)

theorem isSome_specHead {o : Option Cursor} (h : Option.Rel Cursor.Reads o
    (word? "spec".toList s >>= fun r =>
      (after? "::".toList (trimStart r)).or (after? ['='] (trimStart r)))) :
    o.isSome = Line.isSpecHead s := by
  have hsome (o' : Option Text) (h : Option.Rel Cursor.Reads o o') : o.isSome = o'.isSome := by
    cases h <;> rfl
  rw [hsome _ h, Line.isSpecHead]
  cases word? "spec".toList s with
  | none => rfl
  | some r => exact Option.isSome_or

theorem declarations_agrees (hs : Small s) : Agrees SameKind (firstOf declarations s)
    ((Line.binding? s).or
      (((Line.declared? ["describe".toList, "context".toList] s).map .scope).or
        ((Line.declared? ["it".toList] s).map .test))) := by
  have hlast : (Line.declared? ["it".toList] s).map LineKind.test =
      ((Line.declared? ["it".toList] s).map LineKind.test).or none := Option.or_none.symm
  rw [hlast]
  refine (readBinding_agrees hs).orElse (.orElse ?_ (.orElse ?_ .failure))
  · refine (readDeclared_agrees hs _).bind_map ?_
    rintro text _ rfl
    exact .pure ⟨rfl, fun _ _ h => LineKind.noConfusion h⟩
  · refine (readDeclared_agrees hs _).bind_map ?_
    rintro text _ rfl
    exact .pure ⟨rfl, fun _ _ h => LineKind.noConfusion h⟩

theorem classify_agrees (hs : Small s) : ∃ k, classify s = .ok k ∧ SameKind k (Line.kindOf s) := by
  have hother : SameKind .other .other := ⟨rfl, fun _ _ h => LineKind.noConfusion h⟩
  obtain ⟨head, hhead, hrel⟩ := specHead_agrees hs
  obtain ⟨kind, hkind, hk⟩ := declarations_agrees hs
  rw [classify, Line.kindOf]
  generalize (Line.binding? s).or _ = kind' at hk ⊢
  cases Line.boilerplate.any (startsWith · s) with
  | true => exact ⟨.other, rfl, hother⟩
  | false =>
    rw [if_neg Bool.false_ne_true, hhead, ok_bind, isSome_specHead hrel, Bool.false_or]
    cases Line.isSpecHead s with
    | true => exact ⟨.other, rfl, hother⟩
    | false =>
      rw [if_neg Bool.false_ne_true, if_neg Bool.false_ne_true, hkind, ok_bind]
      refine ⟨kind.getD .other, rfl, ?_⟩
      cases hk with
      | none => exact hother
      | some h => exact h

theorem classify_eq (hs : Small s) : classify s = .ok (Line.kindOf s) := by
  obtain ⟨k, hk, rfl, -⟩ := classify_agrees hs
  exact hk

theorem small_of_kindOf (hs : Small s) {name expr : Text}
    (h : Line.kindOf s = .binding name expr) : Small expr := by
  obtain ⟨k, -, rfl, he⟩ := classify_agrees hs
  exact he name expr h

end

/-! ## Blocks -/

/-- The texts of the lines from an index on that belong to a test, and the index after them. -/
def collectBlock (ls : List SourceLine) (depth pos : Nat) : Checked (List Text × Nat) :=
  match _h : ls[pos]? with
  | none => return ([], pos)
  | some next =>
    if next.indent.any (· ≤ depth) then return ([], pos)
    else do
      fits (pos + 1)
      let (body, stop) ← collectBlock ls depth (pos + 1)
      return (next.text :: body, stop)
termination_by ls.length - pos
decreasing_by
  have := (List.getElem?_eq_some_iff.1 _h).1
  omega

/-- The next block from an index on, if there is one, with the context there and the index after
it. -/
def nextBlock (ls : List SourceLine) (c : Context) (pos : Nat) :
    Checked (Option Block × Context × Nat) :=
  if pos < ls.length then do
    let line ← entryAt ls pos
    fits (pos + 1)
    match line.indent with
    | none => nextBlock ls c (pos + 1)
    | some depth =>
      match ← classify (trimStart line.text) with
      | .other => nextBlock ls c (pos + 1)
      | .binding name expr => nextBlock ls (c.bind name expr) (pos + 1)
      | .scope text => nextBlock ls (c.openScope depth text) (pos + 1)
      | .test text => do
        let c := c.close depth
        let (body, stop) ← collectBlock ls depth (pos + 1)
        let block := ⟨c.scopes.map (·.text) ++ [text], unlines (line.text :: body), line.number⟩
        return (some block, c, stop)
  else return (none, c, pos)
termination_by ls.length - pos

theorem le_of_collectBlock {ls : List SourceLine} {depth pos stop : Nat} {body : List Text}
    (h : collectBlock ls depth pos = .ok (body, stop)) : pos ≤ stop := by
  fun_induction collectBlock ls depth pos generalizing body with
  | case1 pos hn =>
    cases h
    exact Nat.le_refl _
  | case2 pos next hn hd =>
    cases h
    exact Nat.le_refl _
  | case3 pos next hn hd ih =>
    obtain ⟨-, -, h⟩ := bind_eq_ok_iff.1 h
    obtain ⟨⟨body', stop'⟩, hrest, h⟩ := bind_eq_ok_iff.1 h
    cases h
    exact Nat.le_of_succ_le (ih hrest)

theorem lt_of_nextBlock {ls : List SourceLine} {c c' : Context} {pos stop : Nat} {b : Block}
    (h : nextBlock ls c pos = .ok (some b, c', stop)) : pos < stop ∧ pos < ls.length := by
  fun_induction nextBlock ls c pos with
  | case1 c pos hpos skip bound opened =>
    refine ⟨?_, hpos⟩
    obtain ⟨line, -, h⟩ := bind_eq_ok_iff.1 h
    obtain ⟨-, -, h⟩ := bind_eq_ok_iff.1 h
    split at h
    · exact Nat.lt_of_succ_lt (skip h).1
    · obtain ⟨kind, -, h⟩ := bind_eq_ok_iff.1 h
      split at h
      · exact Nat.lt_of_succ_lt (skip h).1
      · exact Nat.lt_of_succ_lt (bound _ _ h).1
      · exact Nat.lt_of_succ_lt (opened _ _ h).1
      · obtain ⟨⟨body, stop'⟩, hbody, h⟩ := bind_eq_ok_iff.1 h
        cases h
        exact le_of_collectBlock hbody
  | case2 => cases h

/-- The blocks from an index on, each with its context, and the context at the end. -/
def blocksFrom (ls : List SourceLine) (c : Context) (pos : Nat) :
    Checked (List (Block × Context) × Context) := do
  match ← attach (nextBlock ls c pos) with
  | ⟨(none, c, _), _⟩ => return ([], c)
  | ⟨(some block, c, stop), _h⟩ => do
    let (blocks, last) ← blocksFrom ls c stop
    return ((block, c) :: blocks, last)
termination_by ls.length - pos
decreasing_by
  have := lt_of_nextBlock _h
  omega

/-- The blocks of a source, each with its context, and the context at the end. -/
def segmentSource (source : Text) : Checked (List (Block × Context) × Context) := do
  blocksFrom (← sourceLines 0 (lines source)) .empty 0

section

variable {ls : List SourceLine} {read rest : List Line} {l : Line} {c c' : Context}

theorem getElem?_of_eq (hls : ls = (read ++ l :: rest).map .of) :
    ls[read.length]? = some (.of l) := by
  rw [hls, List.getElem?_map, List.getElem?_append_right (Nat.le_refl _), Nat.sub_self]
  rfl

theorem any_indent (l : Line) (depth : Nat) :
    (SourceLine.of l).indent.any (· ≤ depth) = !l.continues depth := by
  rw [SourceLine.of, Line.continues]
  cases l.isBlank with
  | true => rfl
  | false =>
    rw [if_neg Bool.false_ne_true, Option.any_some, Bool.false_or, Bool.eq_iff_iff]
    simp

theorem collectBlock_eq (hls : ls = (read ++ rest).map .of) (hlen : ls.length < 2 ^ 32)
    (depth : Nat) : collectBlock ls depth read.length =
      .ok ((rest.takeWhile (·.continues depth)).map (·.text),
        read.length + (rest.takeWhile (·.continues depth)).length) := by
  induction rest generalizing read with
  | nil =>
    have hnone : ls[read.length]? = none := by simp [hls]
    rw [collectBlock]
    split
    · rfl
    · next h => exact absurd (hnone.symm.trans h) (by simp)
  | cons l rest ih =>
    have hsome := getElem?_of_eq hls
    have hnext : ls = (read ++ [l] ++ rest).map .of := by simpa using hls
    have hpos := (List.getElem?_eq_some_iff.1 hsome).1
    rw [collectBlock]
    split
    · next h => exact absurd (hsome.symm.trans h) (by simp)
    · next h =>
      obtain rfl := Option.some.inj (hsome.symm.trans h)
      rw [any_indent, List.takeWhile_cons]
      cases l.continues depth with
      | false => rfl
      | true =>
        have hrest := ih hnext
        rw [List.length_append, List.length_singleton] at hrest
        rw [Bool.not_true, if_neg Bool.false_ne_true, fits_of_lt (by omega), ok_bind, hrest,
          ok_bind, if_pos rfl, List.map_cons, List.length_cons, Nat.add_assoc, Nat.add_comm 1]
        rfl

theorem nextBlock_cons (hls : ls = (read ++ l :: rest).map .of) (hlen : ls.length < 2 ^ 32)
    (hs : Small l.text) : nextBlock ls c read.length = match l.kind with
      | .other => nextBlock ls c (read.length + 1)
      | .binding name expr => nextBlock ls (c.bind name expr) (read.length + 1)
      | .scope text => nextBlock ls (c.openScope l.indent text) (read.length + 1)
      | .test text => .ok (
        some (Block.of (c.close l.indent) text l (rest.takeWhile (·.continues l.indent))),
        c.close l.indent,
        read.length + 1 + (rest.takeWhile (·.continues l.indent)).length) := by
  have hsome := getElem?_of_eq hls
  have hpos := (List.getElem?_eq_some_iff.1 hsome).1
  have hnext : ls = (read ++ [l] ++ rest).map .of := by simpa using hls
  have hkind : classify (trimStart l.text) = .ok l.kind :=
    classify_eq (hs.of_sublist (List.dropWhile_sublist isBlank))
  rw [nextBlock, if_pos hpos, entryAt_of_getElem? hsome, ok_bind, fits_of_lt (by omega), ok_bind,
    SourceLine.of]
  cases hb : l.isBlank with
  | true =>
    have hother : l.kind = .other := by
      rw [Line.kind, trimStart_eq_nil_iff.2 hb]
      rfl
    rw [hother]
    rfl
  | false =>
    show (classify (trimStart l.text) >>= fun _ => _) = _
    rw [hkind, ok_bind]
    cases l.kind with
    | other => rfl
    | binding name expr => rfl
    | scope text => rfl
    | test text =>
      have hbody := collectBlock_eq hnext hlen l.indent
      rw [List.length_append, List.length_singleton] at hbody
      show (collectBlock ls l.indent (read.length + 1) >>= fun _ => _) = _
      rw [hbody]
      rfl

theorem blocksFrom_bind (ls : List SourceLine) (c : Context) (pos : Nat) :
    blocksFrom ls c pos = nextBlock ls c pos >>= fun r => match r.1 with
      | none => .ok ([], r.2.1)
      | some b => blocksFrom ls r.2.1 r.2.2 >>= fun p => .ok ((b, r.2.1) :: p.1, p.2) := by
  rw [blocksFrom]
  refine attach_bind ?_
  rintro ⟨⟨o, c', stop⟩, _⟩
  cases o <;> rfl

theorem blocksFrom_eq (hls : ls = (read ++ rest).map .of) (hlen : ls.length < 2 ^ 32)
    (hs : ∀ l ∈ rest, Small l.text) :
    blocksFrom ls c read.length = .ok (segmentLines c rest) := by
  induction hn : rest.length using Nat.strongRecOn generalizing read rest c with
  | _ n ih =>
  subst hn
  cases rest with
  | nil =>
    have hend : nextBlock ls c read.length = .ok (none, c, read.length) := by
      rw [nextBlock, if_neg (by simp [hls])]
      rfl
    rw [blocksFrom_bind, hend, segmentLines]
    rfl
  | cons l rest =>
    have hstep := nextBlock_cons (c := c) hls hlen (hs l (by simp))
    have hnext : ls = (read ++ [l] ++ rest).map .of := by simpa using hls
    have hmore : ∀ l ∈ rest, Small l.text := fun m hm => hs m (by simp [hm])
    have hskip (c' : Context) : blocksFrom ls c' (read.length + 1) = .ok (segmentLines c' rest) := by
      have := ih rest.length (by simp) hnext hmore rfl (c := c')
      rwa [List.length_append, List.length_singleton] at this
    rw [blocksFrom_bind, hstep, segmentLines]
    cases l.kind with
    | other => exact (blocksFrom_bind ls c _).symm.trans (hskip c)
    | binding name expr => exact (blocksFrom_bind ls _ _).symm.trans (hskip _)
    | scope text => exact (blocksFrom_bind ls _ _).symm.trans (hskip _)
    | test text =>
      -- the lines of the block count as read
      have hsplit := List.takeWhile_append_dropWhile (p := (·.continues l.indent)) (l := rest)
      have hafter : ls = (read ++ [l] ++ rest.takeWhile (·.continues l.indent) ++
          rest.dropWhile (·.continues l.indent)).map .of := by
        rw [List.append_assoc _ (rest.takeWhile _), hsplit]
        exact hnext
      have hlt : (rest.dropWhile (·.continues l.indent)).length < (l :: rest).length :=
        Nat.lt_succ_of_le (List.dropWhile_suffix _).length_le
      have hdrop := ih _ hlt hafter (fun m hm => hmore m ((List.dropWhile_suffix _).subset hm)) rfl
        (c := c.close l.indent)
      simp only [List.length_append, List.length_singleton] at hdrop
      show (blocksFrom ls _ _ >>= fun _ => _) = _
      rw [hdrop]
      rfl

end

/-! ## Small texts -/

theorem map_text_all (source : Text) : (Line.all source).map (·.text) = lines source := by
  refine List.ext_getElem? fun i => ?_
  rw [List.getElem?_map, Line.all, List.getElem?_mapIdx]
  cases (lines source)[i]? <;> rfl

theorem small_of_mem_all {source : Text} (hs : Small source) {l : Line}
    (hl : l ∈ Line.all source) : Small l.text := by
  have hmem : l.text ∈ lines source := map_text_all source ▸ List.mem_map_of_mem hl
  exact hs.of_sublist (sublist_of_mem_lines hmem)

/-- **A source is segmented without a fault.** -/
theorem segmentSource_eq {source : Text} (hs : Small source) :
    segmentSource source = .ok (segment source) := by
  have hlines : (lines source).length ≤ width source + 1 := length_pieces_le _ source
  have hsmall : width source < 2 ^ 31 := hs
  have hall : sourceLines 0 (lines source) = .ok ((Line.all source).map .of) := by
    rw [sourceLines_eq (by omega)]
    simp only [Nat.zero_add]
    rfl
  have hlen : ((Line.all source).map SourceLine.of).length < 2 ^ 32 := by
    rw [List.length_map, Line.all, List.length_mapIdx]
    omega
  have hblocks : blocksFrom ((Line.all source).map .of) .empty ([] : List Line).length =
      .ok (segmentLines .empty (Line.all source)) :=
    blocksFrom_eq rfl hlen fun l hl => small_of_mem_all hs hl
  rw [segmentSource, hall]
  exact hblocks

theorem mem_segmentLines_small {c c' : Context} {ls : List Line} {b : Block}
    (hb : SmallBindings c.bindings) (hs : ∀ l ∈ ls, Small l.text)
    (h : (b, c') ∈ (segmentLines c ls).1) : SmallBindings c'.bindings ∧
      ∃ ks : List Line, ks.Sublist ls ∧ b.text = unlines (ks.map (·.text)) := by
  fun_induction segmentLines c ls with
  | case1 => simp at h
  | case2 c l ls hk ih =>
    obtain ⟨hc, ks, hks, ht⟩ := ih hb (fun m hm => hs m (by simp [hm])) h
    exact ⟨hc, ks, hks.cons l, ht⟩
  | case3 c l ls name expr hk ih =>
    have hexpr : Small expr :=
      small_of_kindOf ((hs l (by simp)).of_sublist (List.dropWhile_sublist isBlank)) hk
    obtain ⟨hc, ks, hks, ht⟩ := ih (hb.set hexpr name) (fun m hm => hs m (by simp [hm])) h
    exact ⟨hc, ks, hks.cons l, ht⟩
  | case4 c l ls text hk ih =>
    obtain ⟨hc, ks, hks, ht⟩ := ih hb (fun m hm => hs m (by simp [hm])) h
    exact ⟨hc, ks, hks.cons l, ht⟩
  | case5 c l ls text hk c₁ block blocks last hsplit ih =>
    rcases List.mem_cons.1 h with he | h
    · obtain ⟨rfl, rfl⟩ := Prod.mk.inj he
      exact ⟨hb, _, (List.takeWhile_sublist _).cons_cons l, rfl⟩
    · have hdrop := List.dropWhile_sublist (·.continues l.indent) (l := ls)
      obtain ⟨hc, ks, hks, ht⟩ := ih hb
        (fun m hm => hs m (List.mem_cons_of_mem l (hdrop.subset hm))) (by rw [hsplit]; exact h)
      exact ⟨hc, ks, (hks.trans hdrop).cons l, ht⟩

theorem small_of_mem_segment {source : Text} (hs : Small source) {b : Block} {c : Context}
    (h : (b, c) ∈ (segment source).1) : Small b.text ∧ SmallBindings c.bindings := by
  obtain ⟨hc, ks, hks, ht⟩ := mem_segmentLines_small
    (fun e he => absurd he List.not_mem_nil) (fun l hl => small_of_mem_all hs hl) h
  refine ⟨?_, hc⟩
  have hsub := unlines_sublist (List.sublistForall₂_iff.2
    ⟨_, List.forall₂_same.2 fun k _ => .refl k, hks.map (·.text)⟩)
  rw [map_text_all, unlines_lines] at hsub
  rw [ht]
  exact hs.of_sublist hsub

end SpecHarvest.Bytes
