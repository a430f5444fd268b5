import Mathlib.Data.List.Chain
import SpecHarvest.Proofs.Block.Segment
import SpecHarvest.Proofs.Block.Trailing

/-!
# Comments and the blocks of a source

The blocks of a source with a comment after one of its lines are the blocks of the source.

* `LineKind.ReadAlike`, `Context.ReadAlike`: declarations and contexts that differ in expressions
  that are read alike.
* `commentAt`: a text with a comment after one of its lines. `Line.CanTrail`: the line declares with
  the comment what it declares without, up to such expressions.
* `segment_commentAt`: the blocks have the comment after the same line, and their contexts are read
  alike.
* `getElem?_lines_of_holds`: the lines of a source and those of its blocks.
-/

namespace SpecHarvest

open Text Source

/-! ## Declarations that are read alike -/

/-- The same declaration, or bindings of a name to expressions that are read alike. -/
inductive LineKind.ReadAlike : LineKind → LineKind → Prop
  | refl (k : LineKind) : ReadAlike k k
  | binding (name : Text) {expr expr' : Text} :
    HeaderExpr.parse? expr = HeaderExpr.parse? expr' →
      ReadAlike (.binding name expr) (.binding name expr')

/-- A line binds a name to what is no header expression. -/
def Line.BindsUnread (l : Line) : Prop :=
  ∃ name expr, l.kind = .binding name expr ∧ HeaderExpr.parse? expr = none

/-- The same scopes, and bindings that are read alike. -/
structure Context.ReadAlike (ctx ctx' : Context) : Prop where
  scopes : ctx.scopes = ctx'.scopes
  bindings : HeaderExpr.ReadAlike ctx.bindings ctx'.bindings

namespace Context.ReadAlike

variable {ctx ctx' : Context}

theorem refl (ctx : Context) : ctx.ReadAlike ctx := ⟨rfl, .refl _⟩

theorem close (h : ctx.ReadAlike ctx') (depth : Nat) :
    (ctx.close depth).ReadAlike (ctx'.close depth) :=
  ⟨by rw [Context.close, Context.close, h.scopes], h.bindings⟩

theorem openScope (h : ctx.ReadAlike ctx') (depth : Nat) (text : Text) :
    (ctx.openScope depth text).ReadAlike (ctx'.openScope depth text) :=
  ⟨by simp only [Context.openScope, (h.close depth).scopes], h.bindings⟩

theorem bind (h : ctx.ReadAlike ctx') (name : Text) {expr expr' : Text}
    (he : HeaderExpr.parse? expr = HeaderExpr.parse? expr') :
    (ctx.bind name expr).ReadAlike (ctx'.bind name expr') :=
  ⟨h.scopes, h.bindings.set name he⟩

end Context.ReadAlike

/-! ## Lines with a comment -/

/-- A text with a comment after one of its lines. -/
def commentAt (i : Nat) (c s : Text) : Text := unlines ((lines s).modify i (· ++ trailing c))

namespace Line

/-- The line of a number with a comment, every other line as it is. -/
def withComment (n : Nat) (c : Text) (l : Line) : Line :=
  if l.number = n then { l with text := l.text ++ trailing c } else l

theorem withComment_of_eq {n : Nat} {l : Line} (h : l.number = n) (c : Text) :
    l.withComment n c = { l with text := l.text ++ trailing c } := if_pos h

theorem withComment_of_ne {n : Nat} {l : Line} (h : l.number ≠ n) (c : Text) :
    l.withComment n c = l := if_neg h

@[simp] theorem number_withComment (n : Nat) (c : Text) (l : Line) :
    (l.withComment n c).number = l.number := by
  unfold withComment
  split <;> rfl

/-- The line of a number is not blank. If no block has it, it ends in code, and it starts a binding
only of what is no header expression. -/
structure CanTrail (source : Text) (n : Nat) : Prop where
  notBlank : ∀ l ∈ Line.all source, l.number = n → l.isBlank = false
  kind : ∀ l ∈ Line.all source, l.number = n → active (Line.all source) l = true →
    (stripFrom .code l.text).2 = .code ∧ (startsBinding (trimStart l.text) = true → l.BindsUnread)

variable {source c : Text} {n : Nat} {l : Line}

theorem takeWhile_blank_append {s : Text} (h : allBlank s = false) (y : Text) :
    (s ++ y).takeWhile Text.isBlank = s.takeWhile Text.isBlank := by
  induction s with
  | nil => cases h
  | cons d s ih =>
    cases hd : Text.isBlank d with
    | true =>
      have hs : allBlank s = false := by simpa [allBlank, hd] using h
      simp [hd, ih hs]
    | false => simp [hd]

theorem indent_withComment (h : l.isBlank = false) :
    (l.withComment n c).indent = l.indent := by
  unfold withComment
  split
  · unfold indent
    rw [takeWhile_blank_append h]
  · rfl

theorem continues_withComment (h : l.number = n → l.isBlank = false) (depth : Nat) :
    (l.withComment n c).continues depth = l.continues depth := by
  by_cases hn : l.number = n
  · have hb := h hn
    have hb' : (l.withComment n c).isBlank = false := by
      rw [withComment_of_eq hn]
      unfold isBlank allBlank at hb ⊢
      rw [List.all_append, hb, Bool.false_and]
    rw [continues, continues, hb, hb', indent_withComment hb]
  · rw [withComment_of_ne hn]

theorem kind_withComment (h : l.number = n → l.isBlank = false ∧
    (stripFrom .code l.text).2 = .code ∧
      (startsBinding (trimStart l.text) = true → l.BindsUnread)) :
    l.kind.ReadAlike (l.withComment n c).kind := by
  by_cases hn : l.number = n
  · obtain ⟨hb, hcode, hbind⟩ := h hn
    have hne : trimStart l.text ≠ [] := by
      rw [ne_eq, trimStart_eq_nil_iff, ← Bool.not_eq_false]
      exact fun h => h hb
    rw [← region_trimStart] at hcode
    have hkind : (l.withComment n c).kind = kindOf (trimStart l.text ++ trailing c) := by
      rw [withComment_of_eq hn, kind, trimStart_append, if_neg hne]
    rw [hkind]
    cases hs : startsBinding (trimStart l.text) with
    | false =>
      rw [kindOf_append_trailing c hcode hs]
      exact .refl _
    | true =>
      obtain ⟨name, expr, hk, hread⟩ := hbind hs
      obtain ⟨expr', hk', hread'⟩ := kindOf_append_trailing_of_binding c hcode hk
      rw [hk, hk']
      exact .binding name (hread.trans hread'.symm)
  · rw [withComment_of_ne hn]
    exact .refl _

end Line

theorem lines_commentAt {c : Text} (hc : '\n' ∉ c) (i : Nat) (s : Text) :
    lines (commentAt i c s) = (lines s).modify i (· ++ trailing c) := by
  refine lines_unlines ?_ ?_
  · intro h
    have := congrArg List.length h
    rw [List.length_modify, List.length_nil, List.length_eq_zero_iff] at this
    exact lines_ne_nil s this
  · intro l hl
    obtain ⟨j, hj, rfl⟩ := List.mem_iff_getElem.1 hl
    rw [List.getElem_modify]
    rw [List.length_modify] at hj
    have hmem : '\n' ∉ (lines s)[j] := not_mem_of_mem_lines (List.getElem_mem hj)
    split
    · simp [trailing_eq, hmem, hc]
    · exact hmem

theorem all_commentAt {c : Text} (hc : '\n' ∉ c) (i : Nat) (source : Text) :
    Line.all (commentAt i c source) = (Line.all source).map (·.withComment (i + 1) c) := by
  unfold Line.all
  rw [lines_commentAt hc]
  refine List.ext_getElem? fun j => ?_
  rw [List.getElem?_mapIdx, List.getElem?_modify, List.getElem?_map, List.getElem?_mapIdx]
  cases (lines source)[j]? with
  | none => rfl
  | some l =>
    by_cases hj : i = j
    · simp [hj, Line.withComment]
    · have hne : (⟨j + 1, l⟩ : Line).number ≠ i + 1 := by
        show j + 1 ≠ i + 1
        omega
      simp only [hj, if_false, Option.map_eq_map, Option.map_some, Line.withComment_of_ne hne]

/-! ## Blocks with a comment -/

/-- A block with a comment after the line of a number, if it has that line. -/
def Block.withComment (n : Nat) (c : Text) (b : Block) : Block :=
  if b.line ≤ n then { b with text := commentAt (n - b.line) c b.text } else b

/-- Lines with successive numbers. -/
def Successive (ls : List Line) : Prop := ls.IsChain fun l m => m.number = l.number + 1

theorem successive_all (source : Text) : Successive (Line.all source) := by
  unfold Successive Line.all
  rw [List.isChain_iff_getElem]
  intro i hi
  simp

theorem map_text_withComment {l : Line} {ls : List Line} (h : Successive (l :: ls)) (n : Nat)
    (c : Text) : ((l :: ls).map (·.withComment n c)).map (·.text) =
      if l.number ≤ n then ((l :: ls).map (·.text)).modify (n - l.number) (· ++ trailing c)
      else (l :: ls).map (·.text) := by
  induction ls generalizing l with
  | nil =>
    rcases Nat.lt_trichotomy l.number n with hlt | heq | hgt
    · obtain ⟨k, hk⟩ : ∃ k, n - l.number = k + 1 := ⟨n - l.number - 1, by omega⟩
      rw [if_pos (Nat.le_of_lt hlt), hk]
      simp [Line.withComment_of_ne (Nat.ne_of_lt hlt)]
    · rw [if_pos (Nat.le_of_eq heq), heq, Nat.sub_self]
      simp [Line.withComment_of_eq heq]
    · rw [if_neg (Nat.not_le.2 hgt)]
      simp [Line.withComment_of_ne (Nat.ne_of_gt hgt)]
  | cons m ls ih =>
    obtain ⟨hm, hls⟩ := List.isChain_cons_cons.1 h
    rw [List.map_cons, List.map_cons, ih hls]
    rcases Nat.lt_trichotomy l.number n with hlt | heq | hgt
    · have hk : n - l.number = (n - m.number) + 1 := by omega
      rw [if_pos (by omega), if_pos (Nat.le_of_lt hlt), hk,
        Line.withComment_of_ne (Nat.ne_of_lt hlt)]
      rfl
    · rw [if_neg (by omega), if_pos (Nat.le_of_eq heq), heq, Nat.sub_self,
        Line.withComment_of_eq heq]
      rfl
    · rw [if_neg (by omega), if_neg (Nat.not_le.2 hgt), Line.withComment_of_ne (Nat.ne_of_gt hgt)]
      rfl

theorem Block.of_withComment {l : Line} {body : List Line} (h : Successive (l :: body))
    (hn : ∀ m ∈ l :: body, '\n' ∉ m.text) (n : Nat) (c : Text) (ctx : Context) (title : Text) :
    Block.of ctx title (l.withComment n c) (body.map (·.withComment n c)) =
      (Block.of ctx title l body).withComment n c := by
  have htext := map_text_withComment h n c
  rw [List.map_cons] at htext
  have hlines : lines (unlines ((l :: body).map (·.text))) = (l :: body).map (·.text) := by
    refine lines_unlines (by simp) fun t ht => ?_
    obtain ⟨m, hm, rfl⟩ := List.mem_map.1 ht
    exact hn m hm
  unfold Block.withComment
  by_cases hle : l.number ≤ n
  · rw [if_pos hle] at htext
    rw [if_pos (show (Block.of ctx title l body).line ≤ n from hle)]
    simp only [Block.of, htext, Line.number_withComment, commentAt, hlines]
  · rw [if_neg hle] at htext
    rw [if_neg (show ¬(Block.of ctx title l body).line ≤ n from hle)]
    simp only [Block.of, htext, Line.number_withComment]

theorem takeWhile_map_of_forall {p : Line → Bool} {f : Line → Line} {ls : List Line}
    (h : ∀ l ∈ ls, p (f l) = p l) : (ls.map f).takeWhile p = (ls.takeWhile p).map f ∧
      (ls.map f).dropWhile p = (ls.dropWhile p).map f := by
  induction ls with
  | nil => exact ⟨rfl, rfl⟩
  | cons l ls ih =>
    have hl := h l List.mem_cons_self
    obtain ⟨ht, hd⟩ := ih fun m hm => h m (List.mem_cons_of_mem _ hm)
    cases hp : p l with
    | true => simp [hl, hp, ht, hd]
    | false => simp [hl, hp]

/-- A block with a comment, in a context that is read alike. -/
def TrailedBlock (n : Nat) (c : Text) (p q : Block × Context) : Prop :=
  q.1 = p.1.withComment n c ∧ p.2.ReadAlike q.2

/-- **The blocks of lines with a comment** after one of them. -/
theorem segmentLines_withComment {source : Text} {n : Nat} (h : Line.CanTrail source n) (c : Text)
    {ctx ctx' : Context} {ls : List Line} {bs : List Block}
    (hs : Scanned (Line.all source) ls bs ctx) (hctx : ctx.ReadAlike ctx') :
    List.Forall₂ (TrailedBlock n c) (segmentLines ctx ls).1
      (segmentLines ctx' (ls.map (·.withComment n c))).1 := by
  have hnum := numbered_all source
  have hsucc := successive_all source
  -- what the state says of the line that is read next
  have hhead : ∀ {l : Line} {rest : List Line} {bs : List Block} {ctx : Context},
      Scanned (Line.all source) (l :: rest) bs ctx →
      l.kind.ReadAlike (l.withComment n c).kind ∧ (l.withComment n c).indent = l.indent ∧
        Successive (l :: rest) ∧ ∀ m ∈ l :: rest, m ∈ Line.all source := by
    intro l rest bs ctx hs
    obtain ⟨read, hr⟩ := hs.exists_reading hnum
    have hact := hr.active_head hnum
    have hmem : ∀ m ∈ l :: rest, m ∈ Line.all source := by
      intro m hm
      rw [hr.lines]
      exact List.mem_append_right _ hm
    have hl := hmem l List.mem_cons_self
    refine ⟨Line.kind_withComment fun hn => ⟨h.notBlank l hl hn, h.kind l hl hn hact⟩, ?_, ?_, hmem⟩
    · by_cases hn : l.number = n
      · exact Line.indent_withComment (h.notBlank l hl hn)
      · rw [Line.withComment_of_ne hn]
    · rw [hr.lines] at hsucc
      exact List.IsChain.suffix hsucc (List.suffix_append _ _)
  fun_induction segmentLines ctx ls generalizing bs ctx' with
  | case1 ctx => simp [segmentLines]
  | case2 ctx l ls hk ih =>
    obtain ⟨hkind, -, -, -⟩ := hhead hs
    rw [hk] at hkind
    generalize hk' : (l.withComment n c).kind = k' at hkind
    cases hkind
    simpa [segmentLines, hk'] using ih (hs.other hk) hctx
  | case3 ctx l ls name expr hk ih =>
    obtain ⟨hkind, -, -, -⟩ := hhead hs
    rw [hk] at hkind
    generalize hk' : (l.withComment n c).kind = k' at hkind
    cases hkind with
    | refl => simpa [segmentLines, hk'] using ih (hs.binding hk) (hctx.bind name rfl)
    | binding name he => simpa [segmentLines, hk'] using ih (hs.binding hk) (hctx.bind name he)
  | case4 ctx l ls text hk ih =>
    obtain ⟨hkind, hindent, -, -⟩ := hhead hs
    rw [hk] at hkind
    generalize hk' : (l.withComment n c).kind = k' at hkind
    cases hkind
    simpa [segmentLines, hk', hindent] using ih (hs.scope hk) (hctx.openScope l.indent text)
  | case5 ctx l ls title hk ctx₁ block blocks last =>
    rename_i hseg ih
    obtain ⟨hkind, hindent, hsl, hmem⟩ := hhead hs
    rw [hk] at hkind
    generalize hk' : (l.withComment n c).kind = k' at hkind
    cases hkind
    have hmap : (ls.map (·.withComment n c)).takeWhile (·.continues l.indent) =
        (ls.takeWhile _).map _ ∧ (ls.map _).dropWhile _ = (ls.dropWhile _).map _ :=
      takeWhile_map_of_forall fun m hm =>
        Line.continues_withComment (h.notBlank m (hmem m (List.mem_cons_of_mem _ hm))) l.indent
    obtain ⟨ht, hd⟩ := hmap
    have hbody : Successive (l :: ls.takeWhile (·.continues l.indent)) := by
      refine List.IsChain.infix hsl (List.IsPrefix.isInfix ?_)
      exact List.cons_prefix_cons.2 ⟨rfl, List.takeWhile_prefix _⟩
    have hline : ∀ m ∈ l :: ls.takeWhile (·.continues l.indent), '\n' ∉ m.text := by
      intro m hm
      refine not_mem_of_mem_all (hmem m ?_)
      rcases List.mem_cons.1 hm with rfl | hm
      · exact List.mem_cons_self
      · exact List.mem_cons_of_mem _ ((List.takeWhile_prefix _).subset hm)
    have hclose := hctx.close l.indent
    have hof : ∀ (head : Line) (body : List Line),
        Block.of (ctx'.close l.indent) title head body = Block.of ctx₁ title head body := by
      intro head body
      rw [Block.of, Block.of, ← hclose.scopes]
    have hblock := Block.of_withComment hbody hline n c ctx₁ title
    have hrest := ih (hs.test hk) hclose
    rw [hseg] at hrest
    rw [List.map_cons, segmentLines, hk']
    simp only [hindent, ht, hd, hof, hblock]
    exact .cons ⟨rfl, hclose⟩ hrest

/-- The blocks of a source with a comment after one of its lines. -/
theorem segment_commentAt {source c : Text} {i : Nat} (hc : '\n' ∉ c)
    (h : Line.CanTrail source (i + 1)) :
    List.Forall₂ (TrailedBlock (i + 1) c) (segment source).1 (segment (commentAt i c source)).1 := by
  unfold segment
  rw [all_commentAt hc]
  exact segmentLines_withComment h c .start (.refl _)

/-! ## Lines of blocks -/

/-- Whether a block has a line. -/
def Block.Holds (b : Block) (l : Line) : Prop :=
  b.line ≤ l.number ∧ l.number < b.line + (lines b.text).length

instance (b : Block) : DecidablePred b.Holds := fun _ => inferInstanceAs (Decidable (_ ∧ _))

theorem Successive.number_getElem {l : Line} {ls : List Line} (h : Successive (l :: ls)) {i : Nat}
    (hi : i < (l :: ls).length) : (l :: ls)[i].number = l.number + i := by
  induction ls generalizing l i with
  | nil =>
    have h0 : i = 0 := by simpa using hi
    subst h0
    rfl
  | cons m ls ih =>
    obtain ⟨hm, hls⟩ := List.isChain_cons_cons.1 h
    cases i with
    | zero => rfl
    | succ i =>
      have hi' : i < (m :: ls).length := by simpa using hi
      rw [List.getElem_cons_succ, ih hls hi']
      omega

theorem text_of_blockAt? {ls : List Line} {head : Line} {b : Block}
    (h : blockAt? ls head = some b) :
    b.line = head.number ∧ b.text = unlines ((head :: continuation ls head).map (·.text)) := by
  unfold blockAt? at h
  split at h
  · rw [← Option.some.inj h]
    exact ⟨rfl, rfl⟩
  · cases h

/-- **The lines of a block** have the numbers from that of the block on. -/
theorem getElem?_lines_of_holds {source : Text} {b : Block} {ctx : Context} {l : Line}
    (hb : (b, ctx) ∈ (segment source).1) (hl : l ∈ Line.all source) (h : b.Holds l) :
    (lines b.text)[l.number - b.line]? = some l.text := by
  have hmem : b ∈ (segment source).1.map Prod.fst := List.mem_map_of_mem hb
  rw [map_segment, mem_blocks_iff] at hmem
  obtain ⟨head, hm, -, hblock⟩ := hmem
  obtain ⟨hline, htext⟩ := text_of_blockAt? hblock
  obtain ⟨read, rest, hsplit⟩ := List.append_of_mem hm
  have hcont : ∃ body, continuation (Line.all source) head = body ∧ body <+: rest := by
    have hnum := numbered_all source
    rw [hsplit] at hnum ⊢
    exact ⟨_, hnum.continuation_eq, List.takeWhile_prefix _⟩
  obtain ⟨body, hbody, hfront⟩ := hcont
  have hpart : head :: body <:+: Line.all source := by
    rw [hsplit]
    exact (List.IsPrefix.isInfix (List.cons_prefix_cons.2 ⟨rfl, hfront⟩)).trans
      (List.suffix_append _ _).isInfix
  have hlines : lines b.text = (head :: body).map (·.text) := by
    rw [htext, hbody]
    refine lines_unlines (List.cons_ne_nil _ _) fun t ht => ?_
    obtain ⟨m, hm, rfl⟩ := List.mem_map.1 ht
    exact not_mem_of_mem_all (hpart.subset hm)
  have hi : l.number - b.line < (head :: body).length := by
    obtain ⟨hle, hlt⟩ := h
    rw [hlines, List.length_map] at hlt
    omega
  -- a line of a source is known by its number
  have heq : (head :: body)[l.number - b.line] = l := by
    refine (numbered_all source).eq_of_number (hpart.subset (List.getElem_mem hi)) hl ?_
    have hchain : Successive (head :: body) := List.IsChain.infix (successive_all source) hpart
    rw [hchain.number_getElem hi]
    have := h.1
    omega
  rw [hlines, List.getElem?_map, List.getElem?_eq_getElem hi, heq]
  rfl

end SpecHarvest
