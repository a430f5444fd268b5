import SpecHarvest.Proofs.Assoc
import SpecHarvest.Proofs.Block.Segment

/-!
# The bindings of a block

A `let` counts for all blocks that start after it. The lines of a block are never read for bindings,
so a `let` in a block counts neither for this block nor for a later one.

* `Line.bound?` is what a line binds. `outerLets ls upTo` are the bindings that active lines declare,
  as far as some lines go.
* `Scanned.exists_outerLets`: the table of a state is made of these.
* `BoundBefore source n x e`: the last active `let` of `x` before line `n` binds it to `e`.
* `get?_bindings_iff`: this is what the table of a block says.
-/

namespace SpecHarvest

open Text

/-- The name that a line binds, and the expression that it is bound to. -/
def Line.bound? (l : Line) : Option (Text × Text) :=
  match l.kind with
  | .binding name expr => some (name, expr)
  | _ => none

/-- The bindings that active lines declare, as far as some lines go. -/
def outerLets (ls upTo : List Line) : Bindings := (upTo.filter (active ls)).filterMap Line.bound?

/-- The last active `let` of a name before a line binds it to an expression. -/
def BoundBefore (source : Text) (n : Nat) (x e : Text) : Prop :=
  ∃ front l back, Line.all source = front ++ l :: back ∧ l.number < n ∧
    active (Line.all source) l = true ∧ l.kind = .binding x e ∧
    ∀ m ∈ back, m.number < n → active (Line.all source) m = true → ∀ e', m.kind ≠ .binding x e'

theorem Line.bound?_eq_some_iff {l : Line} {x e : Text} :
    l.bound? = some (x, e) ↔ l.kind = .binding x e := by
  unfold Line.bound?
  cases l.kind <;> simp

/-! ## The table of a state -/

theorem outerLets_append (ls read more : List Line) :
    outerLets ls (read ++ more) = outerLets ls read ++ outerLets ls more := by
  simp [outerLets]

theorem outerLets_of_active {ls : List Line} {l : Line} (h : active ls l = true) :
    outerLets ls [l] = l.bound?.toList := by
  rw [outerLets, List.filter_cons_of_pos h, List.filter_nil]
  cases hb : l.bound? <;> simp [hb]

theorem outerLets_of_inactive {ls more : List Line} (h : ∀ l ∈ more, active ls l = false) :
    outerLets ls more = [] := by
  have hnone : more.filter (active ls) = [] := by
    refine List.filter_eq_nil_iff.2 fun l hl => ?_
    rw [h l hl]
    decide
  rw [outerLets, hnone, List.filterMap_nil]

/-- What the line adds that is read next. -/
theorem Reading.outerLets_eq {ls read rest : List Line} {l : Line} {bs : List Block} {c : Context}
    (h : Reading ls read (l :: rest) bs c) (hn : Numbered ls) :
    outerLets ls (read ++ [l]) = outerLets ls read ++ l.bound?.toList := by
  rw [outerLets_append, outerLets_of_active (h.active_head hn)]

/-- **The table of a state** is made of the bindings of the active lines that have been read. -/
theorem Scanned.exists_outerLets {ls rest : List Line} {bs : List Block} {c : Context}
    (hn : Numbered ls) (h : Scanned ls rest bs c) :
    ∃ read, Reading ls read rest bs c ∧ c.bindings = Assoc.ofList (outerLets ls read) := by
  induction h with
  | start => exact ⟨[], ⟨rfl, by simp, rfl, rfl⟩, rfl⟩
  | @other l rest bs c h hk ih =>
    obtain ⟨read, hr, hb⟩ := ih
    refine ⟨_, hr.skip hn (by rw [Line.declares, hk]) rfl, ?_⟩
    rw [hb, hr.outerLets_eq hn, Line.bound?, hk, Option.toList_none, List.append_nil]
  | @binding l rest bs c name expr h hk ih =>
    obtain ⟨read, hr, hb⟩ := ih
    refine ⟨_, hr.skip hn (by rw [Line.declares, hk]) rfl, ?_⟩
    rw [hr.outerLets_eq hn, Line.bound?, hk, Option.toList_some, Assoc.ofList_concat, ← hb]
    rfl
  | @scope l rest bs c text h hk ih =>
    obtain ⟨read, hr, hb⟩ := ih
    refine ⟨_, hr.openScope hn hk, ?_⟩
    rw [hr.outerLets_eq hn, Line.bound?, hk, Option.toList_none, List.append_nil, ← hb]
    rfl
  | @test l rest bs c title h hk ih =>
    obtain ⟨read, hr, hb⟩ := ih
    refine ⟨_, hr.block hn hk, ?_⟩
    have hl : l ∈ ls := by rw [hr.lines]; simp
    have hinactive : ∀ m ∈ rest.takeWhile (·.continues l.indent), active ls m = false := by
      rw [← hr.continuation_eq hn]
      exact fun m => active_eq_false_of_mem_continuation hl (hr.active_head hn)
        (by rw [Line.isTest, hk])
    rw [← List.singleton_append, ← List.append_assoc, outerLets_append,
      outerLets_of_inactive hinactive, hr.outerLets_eq hn, Line.bound?, hk, Option.toList_none,
      List.append_nil, List.append_nil, ← hb]
    rfl

/-! ## The table of a block -/

/-- A block is found in a state that is reached over the lines. -/
theorem exists_scanned_of_mem {ls rest : List Line} {b : Block} {c c' : Context}
    (h : (b, c') ∈ (segmentLines c rest).1) : ∀ bs, Scanned ls rest bs c →
      ∃ bs' c₀ l rest' title body, Scanned ls (l :: rest') bs' c₀ ∧ c' = c₀.close l.indent ∧
        b = Block.of c' title l body := by
  fun_induction segmentLines c rest with
  | case1 => simp at h
  | case2 c l rest hk ih => exact fun bs hs => ih h bs (hs.other hk)
  | case3 c l rest name expr hk ih => exact fun bs hs => ih h bs (hs.binding hk)
  | case4 c l rest text hk ih => exact fun bs hs => ih h bs (hs.scope hk)
  | case5 c l rest title hk c₁ block blocks last hsegment ih =>
    intro bs hs
    rcases List.mem_cons.1 h with he | h
    · obtain ⟨rfl, rfl⟩ := Prod.mk.inj he
      exact ⟨bs, c, l, rest, title, _, hs, rfl, rfl⟩
    · exact ih (by rw [hsegment]; exact h) _ (hs.test hk)

/-- **The table of a block** is made of the bindings of the active lines before it. -/
theorem bindings_eq_outerLets {source : Text} {b : Block} {c : Context}
    (h : (b, c) ∈ (segment source).1) :
    c.bindings = Assoc.ofList (outerLets (Line.all source)
      ((Line.all source).filter (·.number < b.line))) := by
  have hn := numbered_all source
  obtain ⟨bs, c₀, l, rest, title, body, hs, rfl, rfl⟩ := exists_scanned_of_mem h [] .start
  obtain ⟨read, hr, hb⟩ := hs.exists_outerLets hn
  have hbefore := hr.linesBefore_eq hn
  rw [linesBefore] at hbefore
  exact hb.trans (by rw [← hbefore]; rfl)

theorem exists_filterMap_split_iff {α β : Type} {f : α → Option β} {ls : List α} {e : β}
    {P : β → Prop} :
    (∃ front back, ls.filterMap f = front ++ e :: back ∧ ∀ e' ∈ back, P e') ↔
      ∃ front l back, ls = front ++ l :: back ∧ f l = some e ∧
        ∀ m ∈ back, ∀ e', f m = some e' → P e' := by
  constructor
  · rintro ⟨front, back, he, hP⟩
    obtain ⟨ls₁, ls₂, rfl, -, h₂⟩ := List.filterMap_eq_append_iff.1 he
    obtain ⟨skipped, l, ls₃, rfl, -, hl, rfl⟩ := List.filterMap_eq_cons_iff.1 h₂
    exact ⟨ls₁ ++ skipped, l, ls₃, by simp, hl, fun m hm e' he' =>
      hP e' (List.mem_filterMap.2 ⟨m, hm, he'⟩)⟩
  · rintro ⟨front, l, back, rfl, hl, hP⟩
    refine ⟨front.filterMap f, back.filterMap f, by simp [hl], fun e' he' => ?_⟩
    obtain ⟨m, hm, hf⟩ := List.mem_filterMap.1 he'
    exact hP m hm e' hf

/-- **What the table of a block says of a name** is what the last active `let` of it says that stands
before the block. -/
theorem get?_bindings_iff {source : Text} {b : Block} {c : Context}
    (h : (b, c) ∈ (segment source).1) {x e : Text} :
    Assoc.get? x c.bindings = some e ↔ BoundBefore source b.line x e := by
  have hkeys : ∀ back : Bindings, x ∉ back.map (·.1) ↔ ∀ e' ∈ back, e'.1 ≠ x := by
    intro back
    rw [List.mem_map, not_exists]
    exact forall_congr' fun _ => not_and
  have hbound : ∀ (l : Line) (y f : Text),
      (if active (Line.all source) l && decide (l.number < b.line) then l.bound? else none) =
        some (y, f) ↔
      l.number < b.line ∧ active (Line.all source) l = true ∧ l.kind = .binding y f := by
    intro l y f
    rw [Option.ite_none_right_eq_some, Bool.and_eq_true, decide_eq_true_iff,
      Line.bound?_eq_some_iff, and_comm (a := active _ l = true), and_assoc]
  rw [bindings_eq_outerLets h, Assoc.get?_ofList_eq_some_iff, outerLets, List.filter_filter,
    List.filterMap_filter]
  simp only [hkeys]
  rw [exists_filterMap_split_iff]
  simp only [hbound, Prod.forall, and_assoc, BoundBefore]
  refine exists_congr fun front => exists_congr fun l => exists_congr fun back => ?_
  refine and_congr_right fun _ => and_congr_right fun _ => and_congr_right fun _ =>
    and_congr_right fun _ => forall₂_congr fun m _ => ?_
  constructor
  · exact fun hall hlt ha e' hk => hall x e' ⟨hlt, ha, hk⟩ rfl
  · rintro hall y f ⟨hlt, ha, hk⟩ rfl
    exact hall hlt ha f hk

end SpecHarvest
