import Mathlib.Data.List.Induction
import Mathlib.Data.List.Nodup
import SpecHarvest.Block

/-!
# What the blocks of a source are

The blocks of a source are told by its lines alone, without the order in which they are read.

* `continuation ls head`: the lines after `head` that belong to its block, and `active ls l`:
  whether a line belongs to no block but its own.
* `enclosing ls head`: the scopes around a line. A scope reaches up to the next declaration that is
  not indented deeper.
* `Scanned ls rest blocks c`: the states that are reached over the lines. `Reading` is what holds of
  each: its scopes are those that reach up to it, so they are indented ever deeper
  (`Scanned.ordered`).
* `segment_eq`: the blocks are those of the active tests.
-/

namespace SpecHarvest

open Text

/-! ## Lines and the blocks around them -/

namespace Line

/-- Whether a line declares a test. -/
def isTest (l : Line) : Bool := l.kind matches .test _

/-- Whether a line declares a scope or a test. -/
def declares (l : Line) : Bool := l.kind matches .scope _ | .test _

/-- The scope that a line declares. -/
def scope? (l : Line) : Option Scope :=
  match l.kind with
  | .scope text => some ⟨l.indent, text⟩
  | _ => none

end Line

/-- The lines before a line. -/
def linesBefore (ls : List Line) (l : Line) : List Line := ls.filter (·.number < l.number)

/-- The lines after a line. -/
def linesAfter (ls : List Line) (l : Line) : List Line := ls.filter (l.number < ·.number)

/-- The longest run of lines after a line that are blank or indented deeper. -/
def continuation (ls : List Line) (head : Line) : List Line :=
  (linesAfter ls head).takeWhile (·.continues head.indent)

/-- Whether a line is in no run of an active test. -/
def active (ls : List Line) (l : Line) : Bool :=
  ls.all fun head =>
    if _ : head.number < l.number then
      !(head.isTest && decide (l ∈ continuation ls head) && active ls head)
    else true
termination_by l.number

/-- Whether a line is active and all active declarations after it are indented deeper, as far as
some lines go. -/
def Reaches (ls upTo : List Line) (m : Line) : Prop :=
  active ls m = true ∧ ∀ n ∈ upTo, active ls n = true → n.declares = true →
    m.number < n.number → m.indent < n.indent

instance (ls upTo : List Line) : DecidablePred (Reaches ls upTo) :=
  fun _ => inferInstanceAs (Decidable (_ ∧ _))

/-- The scopes that reach up to the end of some lines. -/
def openScopes (ls upTo : List Line) : List Scope :=
  (upTo.filter fun m => Reaches ls upTo m).filterMap Line.scope?

/-- The scopes around a line. -/
def enclosing (ls : List Line) (l : Line) : List Scope :=
  (openScopes ls (linesBefore ls l)).filter (·.indent < l.indent)

/-- The block of a line that declares a test. -/
def blockAt? (ls : List Line) (head : Line) : Option Block :=
  match head.kind with
  | .test title => some {
      description := (enclosing ls head).map (·.text) ++ [title]
      text := unlines ((head :: continuation ls head).map (·.text))
      line := head.number }
  | _ => none

/-! ## Lines in their order -/

/-- The numbers of the lines increase. -/
def Numbered (ls : List Line) : Prop := ls.Pairwise (·.number < ·.number)

theorem numbered_all (source : Text) : Numbered (Line.all source) := by
  unfold Numbered Line.all
  rw [List.pairwise_iff_getElem]
  intro i j hi hj hij
  simp only [List.getElem_mapIdx]
  omega

namespace Numbered

variable {read rest : List Line} {l : Line}

theorem lt_of_mem (h : Numbered (read ++ rest)) {m n : Line} (hm : m ∈ read) (hn : n ∈ rest) :
    m.number < n.number :=
  (List.pairwise_append.1 h).2.2 m hm n hn

theorem lt_of_mem_rest (h : Numbered (read ++ l :: rest)) {n : Line} (hn : n ∈ rest) :
    l.number < n.number :=
  List.rel_of_pairwise_cons (List.pairwise_append.1 h).2.1 hn

theorem linesBefore_eq (h : Numbered (read ++ l :: rest)) :
    linesBefore (read ++ l :: rest) l = read := by
  have hread : read.filter (·.number < l.number) = read := by
    refine List.filter_eq_self.2 fun m hm => decide_eq_true ?_
    exact h.lt_of_mem hm List.mem_cons_self
  have hrest : (l :: rest).filter (·.number < l.number) = [] := by
    refine List.filter_eq_nil_iff.2 fun n hn => ?_
    rcases List.mem_cons.1 hn with rfl | hn
    · simp
    · have := h.lt_of_mem_rest hn
      simp only [decide_eq_true_eq]
      omega
  rw [linesBefore, List.filter_append, hread, hrest, List.append_nil]

theorem linesAfter_eq (h : Numbered (read ++ l :: rest)) :
    linesAfter (read ++ l :: rest) l = rest := by
  have hread : read.filter (l.number < ·.number) = [] := by
    refine List.filter_eq_nil_iff.2 fun m hm => ?_
    have := h.lt_of_mem hm List.mem_cons_self
    simp only [decide_eq_true_eq]
    omega
  have hrest : rest.filter (l.number < ·.number) = rest := by
    refine List.filter_eq_self.2 fun n hn => decide_eq_true ?_
    exact h.lt_of_mem_rest hn
  rw [linesAfter, List.filter_append, hread, List.nil_append,
    List.filter_cons_of_neg (by simp), hrest]

theorem eq_of_number {ls : List Line} (h : Numbered ls) {m n : Line} (hm : m ∈ ls) (hn : n ∈ ls)
    (he : m.number = n.number) : m = n := by
  have hnodup : (ls.map (·.number)).Nodup := List.pairwise_map.2 (h.imp Nat.ne_of_lt)
  exact List.inj_on_of_nodup_map hnodup hm hn he

theorem continuation_eq (h : Numbered (read ++ l :: rest)) :
    continuation (read ++ l :: rest) l = rest.takeWhile (·.continues l.indent) := by
  rw [continuation, h.linesAfter_eq]

end Numbered

theorem lt_of_mem_continuation {ls : List Line} {head l : Line} (h : l ∈ continuation ls head) :
    head.number < l.number :=
  of_decide_eq_true (List.mem_filter.1 ((List.takeWhile_prefix _).subset h)).2

theorem active_iff {ls : List Line} {l : Line} : active ls l = true ↔ ∀ head ∈ ls,
    head.number < l.number → head.isTest = true → l ∈ continuation ls head →
      active ls head = false := by
  rw [active, List.all_eq_true]
  refine forall₂_congr fun head _ => ?_
  by_cases hlt : head.number < l.number
  · rw [dif_pos hlt, Bool.not_eq_true', Bool.and_eq_false_imp, Bool.and_eq_true, and_imp,
      decide_eq_true_iff]
    exact ⟨fun h _ => h, fun h => h hlt⟩
  · rw [dif_neg hlt]
    exact ⟨fun _ h => absurd h hlt, fun _ => rfl⟩

/-- The lines in the block of an active test are not active. -/
theorem active_eq_false_of_mem_continuation {ls : List Line} {head l : Line} (hm : head ∈ ls)
    (ha : active ls head = true) (ht : head.isTest = true) (hl : l ∈ continuation ls head) :
    active ls l = false := by
  refine Bool.eq_false_iff.2 fun hact => ?_
  rw [active_iff.1 hact head hm (lt_of_mem_continuation hl) ht hl] at ha
  cases ha

/-! ## Open scopes -/

theorem Line.scope?_eq_none_of_not_declares {l : Line} (h : l.declares = false) :
    l.scope? = none := by
  unfold Line.declares at h
  unfold Line.scope?
  cases hk : l.kind <;> simp_all

theorem Line.indent_of_scope? {l : Line} {s : Scope} (h : l.scope? = some s) :
    s.indent = l.indent ∧ l.declares = true := by
  unfold Line.scope? at h
  unfold Line.declares
  cases hk : l.kind <;> simp only [hk, Option.some.injEq, reduceCtorEq] at h ⊢
  subst h
  simp

theorem filter_filterMap_scope? (d : Nat) (ls : List Line) :
    (ls.filterMap Line.scope?).filter (·.indent < d) =
      (ls.filter (·.indent < d)).filterMap Line.scope? := by
  rw [List.filter_filterMap, List.filterMap_filter]
  refine List.filterMap_congr fun l _ => ?_
  cases h : l.scope? with
  | none => simp
  | some s =>
    rw [Option.filter_some, (Line.indent_of_scope? h).1]

/-- The open scopes are indented ever deeper. -/
theorem ordered_openScopes {ls upTo : List Line} (h : Numbered upTo) :
    (openScopes ls upTo).Pairwise (·.indent < ·.indent) := by
  unfold openScopes
  rw [List.pairwise_filterMap, List.pairwise_filter]
  refine List.Pairwise.imp_of_mem ?_ h
  intro m n hm hn hlt hmr hnr s hs t ht
  obtain ⟨hsi, -⟩ := Line.indent_of_scope? hs
  obtain ⟨hti, htd⟩ := Line.indent_of_scope? ht
  rw [hsi, hti]
  exact (of_decide_eq_true hmr).2 n hn (of_decide_eq_true hnr).1 htd hlt

/-- Lines that declare nothing leave the scopes open. -/
theorem openScopes_append {ls read more : List Line}
    (h : ∀ n ∈ more, active ls n = true → n.declares = false) :
    openScopes ls (read ++ more) = openScopes ls read := by
  have hread : read.filter (fun m => Reaches ls (read ++ more) m) =
      read.filter (fun m => Reaches ls read m) := by
    refine List.filter_congr fun m _ => decide_eq_decide.2 (and_congr_right fun _ => ?_)
    simp only [List.mem_append, or_imp, forall_and]
    refine and_iff_left fun n hn ha hd => ?_
    rw [h n hn ha] at hd
    cases hd
  have hmore : (more.filter fun m => Reaches ls (read ++ more) m).filterMap Line.scope? = [] := by
    refine List.filterMap_eq_nil_iff.2 fun m hm => Line.scope?_eq_none_of_not_declares ?_
    obtain ⟨hm, hr⟩ := List.mem_filter.1 hm
    exact h m hm (of_decide_eq_true hr).1
  rw [openScopes, List.filter_append, List.filterMap_append, hread, hmore, List.append_nil,
    openScopes]

/-- A declaration closes the scopes that are not indented less. -/
theorem openScopes_append_declares {ls read : List Line} {l : Line} (ha : active ls l = true)
    (hd : l.declares = true) (hlt : ∀ m ∈ read, m.number < l.number) :
    openScopes ls (read ++ [l]) =
      (openScopes ls read).filter (·.indent < l.indent) ++ l.scope?.toList := by
  have hread : read.filter (fun m => Reaches ls (read ++ [l]) m) =
      (read.filter fun m => Reaches ls read m).filter (·.indent < l.indent) := by
    rw [List.filter_filter]
    refine List.filter_congr fun m hm => ?_
    rw [← Bool.decide_and, decide_eq_decide, and_comm (a := m.indent < l.indent), Reaches, Reaches,
      and_assoc]
    simp [or_imp, forall_and, ha, hd, hlt m hm]
  have hl : Reaches ls (read ++ [l]) l := by
    refine ⟨ha, fun n hn _ _ hln => ?_⟩
    rcases List.mem_append.1 hn with hn | hn
    · have := hlt n hn
      omega
    · rw [List.mem_singleton.1 hn] at hln
      omega
  rw [openScopes, List.filter_append, List.filterMap_append, hread, ← filter_filterMap_scope?,
    List.filter_singleton, openScopes]
  cases hs : l.scope? <;> simp [hl, hs]

/-- Of scopes that are indented ever deeper the innermost are closed. -/
theorem Context.close_scopes {c : Context} (h : c.scopes.Pairwise (·.indent < ·.indent)) (d : Nat) :
    (c.close d).scopes = c.scopes.filter (·.indent < d) := by
  show ((c.scopes.reverse.dropWhile fun s => d ≤ s.indent).reverse) = _
  generalize c.scopes = scopes at h
  induction scopes using List.reverseRecOn with
  | nil => rfl
  | append_singleton scopes s ih =>
    obtain ⟨hs, -, hlt⟩ := List.pairwise_append.1 h
    rw [List.reverse_append, List.reverse_singleton, List.singleton_append, List.dropWhile_cons,
      List.filter_append]
    by_cases hd : d ≤ s.indent
    · rw [if_pos (decide_eq_true hd), ih hs, List.filter_cons_of_neg (by simpa using hd),
        List.filter_nil, List.append_nil]
    · have hall : scopes.filter (·.indent < d) = scopes := by
        refine List.filter_eq_self.2 fun t ht => decide_eq_true ?_
        have := hlt t ht s (by simp)
        omega
      rw [if_neg (by simpa using hd), hall, List.filter_cons_of_pos (by simpa using hd),
        List.filter_nil, List.reverse_cons, List.reverse_reverse]

/-! ## States -/

/-- The states that are reached over the lines `ls`: the lines still to read, the blocks found so
far and the context. -/
inductive Scanned (ls : List Line) : (rest : List Line) → List Block → Context → Prop
  | start : Scanned ls ls [] .empty
  | other {l rest bs c} : Scanned ls (l :: rest) bs c → l.kind = .other → Scanned ls rest bs c
  | binding {l rest bs c name expr} : Scanned ls (l :: rest) bs c → l.kind = .binding name expr →
    Scanned ls rest bs (c.bind name expr)
  | scope {l rest bs c text} : Scanned ls (l :: rest) bs c → l.kind = .scope text →
    Scanned ls rest bs (c.openScope l.indent text)
  | test {l rest bs c title} : Scanned ls (l :: rest) bs c → l.kind = .test title →
    Scanned ls (rest.dropWhile (·.continues l.indent))
      (bs ++ [Block.of (c.close l.indent) title l (rest.takeWhile (·.continues l.indent))])
      (c.close l.indent)

/-- **Every source is scanned to its end.** -/
theorem scanned_segment (source : Text) : Scanned (Line.all source) []
    ((segment source).1.map Prod.fst) (segment source).2 := by
  have run : ∀ c ls, ∀ bs, Scanned (Line.all source) ls bs c → Scanned (Line.all source) []
      (bs ++ (segmentLines c ls).1.map Prod.fst) (segmentLines c ls).2 := by
    intro c ls
    fun_induction segmentLines c ls with
    | case1 c => exact fun bs h => by simpa using h
    | case2 c l ls hk ih => exact fun bs h => ih bs (h.other hk)
    | case3 c l ls name expr hk ih => exact fun bs h => ih bs (h.binding hk)
    | case4 c l ls text hk ih => exact fun bs h => ih bs (h.scope hk)
    | case5 c l ls title hk c₁ block blocks last hs ih =>
      intro bs h
      have := ih _ (h.test hk)
      rw [hs] at this
      simpa using this
  exact run .empty (Line.all source) [] .start

/-- What holds of a state after the lines `read`. -/
structure Reading (ls read rest : List Line) (bs : List Block) (c : Context) : Prop where
  lines : ls = read ++ rest
  closed : ∀ head ∈ read, active ls head = true → head.isTest = true →
    ∀ l ∈ rest, l ∉ continuation ls head
  blocks : bs = (read.filter (active ls)).filterMap (blockAt? ls)
  scopes : c.scopes = openScopes ls read

namespace Reading

variable {ls read rest : List Line} {l : Line} {bs : List Block} {c : Context}

theorem number_lt (h : Reading ls read (l :: rest) bs c) (hn : Numbered ls) :
    ∀ m ∈ read, m.number < l.number := by
  intro m hm
  rw [h.lines] at hn
  exact hn.lt_of_mem hm List.mem_cons_self

theorem linesBefore_eq (h : Reading ls read (l :: rest) bs c) (hn : Numbered ls) :
    linesBefore ls l = read := by
  rw [h.lines] at hn ⊢
  exact hn.linesBefore_eq

theorem continuation_eq (h : Reading ls read (l :: rest) bs c) (hn : Numbered ls) :
    continuation ls l = rest.takeWhile (·.continues l.indent) := by
  rw [h.lines] at hn ⊢
  exact hn.continuation_eq

/-- The line that is read next is active. -/
theorem active_head (h : Reading ls read (l :: rest) bs c) (hn : Numbered ls) :
    active ls l = true := by
  refine active_iff.2 fun head hm hlt ht hr => ?_
  rw [h.lines] at hm hn
  rcases List.mem_append.1 hm with hm | hm
  · cases ha : active ls head with
    | false => rfl
    | true => exact absurd hr (h.closed head hm ha ht l List.mem_cons_self)
  · rcases List.mem_cons.1 hm with rfl | hm
    · omega
    · have := hn.lt_of_mem_rest hm
      omega

/-- Reading a line that declares no test. -/
theorem next (h : Reading ls read (l :: rest) bs c) (hn : Numbered ls) (ht : l.isTest = false)
    {c' : Context} (hc : c'.scopes = openScopes ls (read ++ [l])) :
    Reading ls (read ++ [l]) rest bs c' where
  lines := by rw [h.lines, List.append_assoc, List.singleton_append]
  closed := by
    intro head hm ha ht' n hn
    rcases List.mem_append.1 hm with hm | hm
    · exact h.closed head hm ha ht' n (List.mem_cons_of_mem _ hn)
    · rw [List.mem_singleton.1 hm, ht] at ht'
      cases ht'
  blocks := by
    have hl : blockAt? ls l = none := by
      unfold Line.isTest at ht
      unfold blockAt?
      cases hk : l.kind <;> simp_all
    rw [List.filter_append, List.filterMap_append, ← h.blocks,
      List.filter_cons_of_pos (h.active_head hn), List.filter_nil]
    simp [hl]
  scopes := hc

/-- The context in which a declaration stands. -/
theorem close_scopes (h : Reading ls read (l :: rest) bs c) (hn : Numbered ls) :
    (c.close l.indent).scopes = enclosing ls l := by
  have hread : Numbered read := by
    rw [h.lines] at hn
    exact (List.pairwise_append.1 hn).1
  rw [Context.close_scopes, h.scopes, enclosing, h.linesBefore_eq hn]
  rw [h.scopes]
  exact ordered_openScopes hread

/-- Reading a test and the lines that belong to it. -/
theorem block (h : Reading ls read (l :: rest) bs c) (hn : Numbered ls) {title : Text}
    (hk : l.kind = .test title) :
    Reading ls (read ++ l :: rest.takeWhile (·.continues l.indent))
      (rest.dropWhile (·.continues l.indent))
      (bs ++ [Block.of (c.close l.indent) title l (rest.takeWhile (·.continues l.indent))])
      (c.close l.indent) := by
  have ha := h.active_head hn
  have ht : l.isTest = true := by rw [Line.isTest, hk]
  have hd : l.declares = true := by rw [Line.declares, hk]
  have hcont := h.continuation_eq hn
  rw [← hcont]
  have hlines : ls = read ++ l :: continuation ls l ++ rest.dropWhile (·.continues l.indent) := by
    rw [hcont, List.append_assoc, List.cons_append, List.takeWhile_append_dropWhile]
    exact h.lines
  have hl : l ∈ ls := by rw [h.lines]; simp
  have hrest : ∀ n ∈ continuation ls l, active ls n = false :=
    fun n => active_eq_false_of_mem_continuation hl ha ht
  refine ⟨hlines, ?_, ?_, ?_⟩
  · intro head hm hact ht' n hn' hr
    rcases List.mem_append.1 hm with hm | hm
    · exact h.closed head hm hact ht' n
        (List.mem_cons_of_mem _ ((List.dropWhile_suffix _).subset hn')) hr
    rcases List.mem_cons.1 hm with rfl | hm
    · rw [hlines] at hn
      have := hn.lt_of_mem (List.mem_append_right _ (List.mem_cons_of_mem _ hr)) hn'
      omega
    · rw [hrest head hm] at hact
      cases hact
  · have hl : blockAt? ls l = some (Block.of (c.close l.indent) title l (continuation ls l)) := by
      simp only [blockAt?, hk, Block.of, h.close_scopes hn]
    have hnone : (continuation ls l).filter (active ls) = [] := by
      refine List.filter_eq_nil_iff.2 fun n hm => ?_
      rw [hrest n hm]
      decide
    rw [List.filter_append, List.filterMap_append, ← h.blocks, List.filter_cons_of_pos ha, hnone,
      List.filterMap_cons, hl, List.filterMap_nil]
  · have hscope : l.scope? = none := by rw [Line.scope?, hk]
    rw [h.close_scopes hn, enclosing, h.linesBefore_eq hn, ← List.singleton_append,
      ← List.append_assoc, openScopes_append, openScopes_append_declares ha hd (h.number_lt hn),
      hscope, Option.toList_none, List.append_nil]
    intro n hm hact
    rw [hrest n hm] at hact
    cases hact

/-- Reading a line that declares neither a scope nor a test. -/
theorem skip (h : Reading ls read (l :: rest) bs c) (hn : Numbered ls) (hd : l.declares = false)
    {c' : Context} (hc : c'.scopes = c.scopes) : Reading ls (read ++ [l]) rest bs c' := by
  have ht : l.isTest = false := by
    unfold Line.declares at hd
    unfold Line.isTest
    cases hk : l.kind <;> simp_all
  refine h.next hn ht ?_
  rw [hc, h.scopes, openScopes_append]
  intro n hm _
  rw [List.mem_singleton.1 hm, hd]

/-- Reading a scope. -/
theorem openScope (h : Reading ls read (l :: rest) bs c) (hn : Numbered ls) {text : Text}
    (hk : l.kind = .scope text) :
    Reading ls (read ++ [l]) rest bs (c.openScope l.indent text) := by
  refine h.next hn (by rw [Line.isTest, hk]) ?_
  have hd : l.declares = true := by rw [Line.declares, hk]
  show (c.close l.indent).scopes ++ [⟨l.indent, text⟩] = _
  rw [openScopes_append_declares (h.active_head hn) hd (h.number_lt hn), h.close_scopes hn,
    enclosing, h.linesBefore_eq hn, Line.scope?, hk, Option.toList_some]

end Reading

theorem Scanned.exists_reading {ls rest : List Line} {bs : List Block} {c : Context}
    (hn : Numbered ls) (h : Scanned ls rest bs c) : ∃ read, Reading ls read rest bs c := by
  induction h with
  | start => exact ⟨[], rfl, by simp, rfl, rfl⟩
  | @other l rest bs c h hk ih =>
    obtain ⟨read, ih⟩ := ih
    exact ⟨_, ih.skip hn (by rw [Line.declares, hk]) rfl⟩
  | @binding l rest bs c name expr h hk ih =>
    obtain ⟨read, ih⟩ := ih
    exact ⟨_, ih.skip hn (by rw [Line.declares, hk]) rfl⟩
  | @scope l rest bs c text h hk ih =>
    obtain ⟨read, ih⟩ := ih
    exact ⟨_, ih.openScope hn hk⟩
  | @test l rest bs c title h hk ih =>
    obtain ⟨read, ih⟩ := ih
    exact ⟨_, ih.block hn hk⟩

/-- **In every state the open scopes are indented ever deeper.** -/
theorem Scanned.ordered {ls rest : List Line} {bs : List Block} {c : Context} (hn : Numbered ls)
    (h : Scanned ls rest bs c) : c.scopes.Pairwise (·.indent < ·.indent) := by
  obtain ⟨read, hr⟩ := h.exists_reading hn
  rw [hr.scopes]
  rw [hr.lines] at hn
  exact ordered_openScopes (List.pairwise_append.1 hn).1

/-! ## Blocks -/

/-- The blocks are those of the active tests, in their order. -/
theorem map_segment (source : Text) : (segment source).1.map Prod.fst =
    ((Line.all source).filter (active (Line.all source))).filterMap
      (blockAt? (Line.all source)) := by
  obtain ⟨read, hr⟩ := (scanned_segment source).exists_reading (numbered_all source)
  have hread := hr.lines
  rw [List.append_nil] at hread
  rw [hr.blocks, ← hread]

/-- Whether a line is in the block of a line that declares a test, and is not that line. -/
def Block.Continues (ls : List Line) (b : Block) (l : Line) : Prop :=
  ∃ head ∈ ls, head.number = b.line ∧ l ∈ continuation ls head

theorem mem_blocks_iff {ls : List Line} {b : Block} :
    b ∈ (ls.filter (active ls)).filterMap (blockAt? ls) ↔
      ∃ head ∈ ls, active ls head = true ∧ blockAt? ls head = some b := by
  simp [List.mem_filterMap, List.mem_filter, and_assoc]

theorem exists_blockAt? {ls : List Line} {l : Line} (h : l.isTest = true) :
    ∃ b, blockAt? ls l = some b ∧ b.line = l.number := by
  unfold Line.isTest at h
  unfold blockAt?
  cases hk : l.kind <;> simp_all

theorem isTest_of_blockAt? {ls : List Line} {l : Line} {b : Block} (h : blockAt? ls l = some b) :
    l.isTest = true ∧ b.line = l.number := by
  unfold blockAt? at h
  unfold Line.isTest
  cases hk : l.kind <;> simp only [hk, Option.some.injEq, reduceCtorEq] at h ⊢
  subst h
  simp

/-- A line is active if it continues no block that is found. -/
theorem active_iff_not_continues {source : Text} {l : Line} :
    active (Line.all source) l = true ↔
      ∀ b ∈ (segment source).1.map Prod.fst, ¬b.Continues (Line.all source) l := by
  have hn := numbered_all source
  rw [map_segment, active_iff]
  constructor
  · rintro h b hb ⟨head, hm, hnum, hr⟩
    obtain ⟨head', hm', ha, hb⟩ := mem_blocks_iff.1 hb
    obtain ⟨ht, hline⟩ := isTest_of_blockAt? hb
    obtain rfl := hn.eq_of_number hm hm' (hnum.trans hline)
    rw [h head hm (lt_of_mem_continuation hr) ht hr] at ha
    cases ha
  · intro h head hm hlt ht hr
    cases ha : active (Line.all source) head with
    | false => rfl
    | true =>
      obtain ⟨b, hb, hline⟩ := exists_blockAt? ht
      exact absurd ⟨head, hm, hline.symm, hr⟩ (h b (mem_blocks_iff.2 ⟨head, hm, ha, hb⟩))

/-- **The blocks of a source** are those of its active tests, in their order, a line being active
if it continues no block that is found. The open scopes are at all times indented ever deeper. -/
theorem segment_eq (source : Text) :
    (segment source).1.map Prod.fst =
      ((Line.all source).filter (active (Line.all source))).filterMap
        (blockAt? (Line.all source)) ∧
    (∀ l, active (Line.all source) l = true ↔
      ∀ b ∈ (segment source).1.map Prod.fst, ¬b.Continues (Line.all source) l) ∧
    Scanned (Line.all source) [] ((segment source).1.map Prod.fst) (segment source).2 ∧
    ∀ rest bs c, Scanned (Line.all source) rest bs c →
      c.scopes.Pairwise (·.indent < ·.indent) :=
  ⟨map_segment source, fun _ => active_iff_not_continues, scanned_segment source,
    fun _ _ _ h => h.ordered (numbered_all source)⟩

/-- A scope within a scope and four tests, of which one has two lines and one stands outside. -/
def nestedLines : List Line :=
  [⟨1, "describe \"a\" $ do".toList⟩, ⟨2, "  it \"w\" $".toList⟩, ⟨3, "    pure ()".toList⟩,
    ⟨4, "  context \"b\" $ do".toList⟩, ⟨5, "    it \"x\" $ pure ()".toList⟩,
    ⟨6, "    it \"y\" $ pure ()".toList⟩, ⟨7, "it \"z\" $ pure ()".toList⟩]

/-- The text of these lines. -/
def nestedText : Text := unlines (nestedLines.map (·.text))

/-- The state before the test `y`, in which both scopes are open. -/
theorem scanned_nested : ∃ bs, Scanned (Line.all nestedText) (nestedLines.drop 5) bs
    ⟨[⟨0, ['a']⟩, ⟨2, ['b']⟩], []⟩ ∧
      bs.map (·.description) = [[['a'], ['w']], [['a'], ['b'], ['x']]] := by
  have hlines : Line.all nestedText = nestedLines := by decide +kernel
  have hkinds : nestedLines.map Line.kind = [.scope ['a'], .test ['w'], .other, .scope ['b'],
      .test ['x'], .test ['y'], .test ['z']] := by decide +kernel
  simp only [nestedLines, List.map_cons, List.map_nil, List.cons.injEq, and_true] at hkinds
  obtain ⟨ha, hw, -, hb, hx, -⟩ := hkinds
  have hdescribe : Scanned (Line.all nestedText) (nestedLines.drop 1) [] ⟨[⟨0, ['a']⟩], []⟩ := by
    rw [hlines]
    exact .scope .start ha
  have hcontext : Scanned (Line.all nestedText) (nestedLines.drop 4) _
      ⟨[⟨0, ['a']⟩, ⟨2, ['b']⟩], []⟩ :=
    .scope (hdescribe.test hw) hb
  exact ⟨_, hcontext.test hx, rfl⟩

theorem segment_eq_nested :
    ((segment nestedText).1.map Prod.fst).map (·.description) =
      [[['a'], ['w']], [['a'], ['b'], ['x']], [['a'], ['b'], ['y']], [['z']]] ∧
    ∃ bs, Scanned (Line.all nestedText) (nestedLines.drop 5) bs ⟨[⟨0, ['a']⟩, ⟨2, ['b']⟩], []⟩ ∧
      bs.map (·.description) = [[['a'], ['w']], [['a'], ['b'], ['x']]] ∧
      [(⟨0, ['a']⟩ : Scope), ⟨2, ['b']⟩].Pairwise (·.indent < ·.indent) := by
  obtain ⟨bs, hs, hbs⟩ := scanned_nested
  refine ⟨?_, bs, hs, hbs, (segment_eq nestedText).2.2.2 _ _ _ hs⟩
  rw [(segment_eq nestedText).1]
  decide +kernel

end SpecHarvest
