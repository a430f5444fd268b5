import SpecHarvest.Proofs.Source.Quoted
import SpecHarvest.Proofs.Source.Reader

/-!
# Runs of operations on a cursor

Parsers try one operation after another at a cursor, so each of them must leave the cursor alone
when it fails.

* `Op` and `Answer`: the operations and what they answer. `exec` performs several.
* `Recognises op taken left a`: what an operation takes from the front of a text, what it leaves and
  what it answers then, without the operation.
* `Op.consumes_or_leaves`: an operation takes what it recognises, or it recognises nothing and does
  not move. `exec_split`: no run loses or adds anything.
* `exec_consumes_or_leaves`: both together for every run, in terms of byte offsets.
-/

namespace SpecHarvest.Source.Cursor

open Text

/-! ## Operations -/

/-- The operations on a cursor. -/
inductive Op where
  | skipBlanks
  | eat (lit : Text)
  | eatWord (word : Text)
  | takeQuoted
  | takeNatural
  | takeIdentifier
  | atEnd
  | rest
  deriving DecidableEq, Repr

/-- What an operation answers. -/
inductive Answer where
  /-- So many bytes are passed. -/
  | passed (n : Nat)
  | flag (b : Bool)
  | text (t : Option Text)
  | natural (n : Option Nat)
  deriving DecidableEq, Repr

/-- Whether an answer tells of a failure. -/
def Answer.isFailure : Answer → Bool
  | .passed _ => false
  | .flag b => !b
  | .text t => t.isNone
  | .natural n => n.isNone

/-- The answer of an operation, and the cursor after it. -/
def Op.run : Op → Cursor → Answer × Cursor
  | .skipBlanks, c => c.skipBlanks.map .passed id
  | .eat lit, c => (c.eat lit).map .flag id
  | .eatWord word, c => (c.eatWord word).map .flag id
  | .takeQuoted, c => c.takeQuoted.map .text id
  | .takeNatural, c => c.takeNatural.map .natural id
  | .takeIdentifier, c => c.takeIdentifier.map .text id
  | .atEnd, c => (.flag c.atEnd, c)
  | .rest, c => (.text (some c.rest), c)

/-- The cursor after several operations. -/
def exec (ops : List Op) (c : Cursor) : Cursor := ops.foldl (fun c op => (op.run c).2) c

/-! ## What is recognised -/

/-- An operation takes a text from what is left, leaves another, and answers. -/
inductive Recognises : Op → (taken left : Text) → Answer → Prop
  /-- All the white space. -/
  | skipBlanks {gap left : Text} : allBlank gap = true → endsHere isBlank left = true →
    Recognises .skipBlanks gap left (.passed (width gap))
  | eat (lit left : Text) : Recognises (.eat lit) lit left (.flag true)
  /-- A word that no identifier continues. -/
  | eatWord (word : Text) {left : Text} : endsHere isIdentChar left = true →
    Recognises (.eatWord word) word left (.flag true)
  /-- A literal, of which what it holds is answered. -/
  | takeQuoted {raw : Text} (left : Text) : Raw raw →
    Recognises .takeQuoted ('"' :: (raw ++ ['"'])) left (.text (some raw))
  /-- All the digits, if their number fits 64 bits. -/
  | takeNatural {digits left : Text} {n : Nat} : Digits digits n →
    endsHere Char.isDigit left = true → Recognises .takeNatural digits left (.natural (some n))
  /-- A whole identifier. -/
  | takeIdentifier {name left : Text} : name ≠ [] → name.all isIdentChar = true →
    endsHere isIdentChar left = true → Recognises .takeIdentifier name left (.text (some name))
  | atEnd {left : Text} : allBlank left = true → Recognises .atEnd [] left (.flag true)
  | rest (left : Text) : Recognises .rest [] left (.text (some left))

theorem Recognises.isFailure {op : Op} {taken left : Text} {a : Answer}
    (h : Recognises op taken left a) : a.isFailure = false := by
  cases h <;> rfl

/-- An operation takes what it recognises, and moves by that. -/
def Consumes (op : Op) (c : Cursor) : Prop :=
  ∃ taken left a, c.rest = taken ++ left ∧ Recognises op taken left a ∧
    op.run c = (a, ⟨c.read ++ taken, left⟩)

/-- An operation recognises nothing, fails, and does not move. -/
def Leaves (op : Op) (c : Cursor) : Prop :=
  (∀ taken left a, c.rest = taken ++ left → ¬Recognises op taken left a) ∧
    ∃ a, a.isFailure = true ∧ op.run c = (a, c)

section

variable {c : Cursor}

theorem move_of_eq {x left : Text} (h : c.rest = x ++ left) :
    c.move left = ⟨c.read ++ x, left⟩ := by
  obtain ⟨read, rest⟩ := c
  subst h
  exact move_append read x left

/-- Operations that look for a given text. -/
theorem consumes_or_leaves_eat {op : Op} (lit : Text) (after : Option Text)
    (hrun : op.run c = after.elim (.flag false, c) fun left => (.flag true, c.move left))
    (hreads : ∀ left, after = some left →
      c.rest = lit ++ left ∧ Recognises op lit left (.flag true))
    (hread : ∀ taken left a, c.rest = taken ++ left → Recognises op taken left a →
      after = some left) :
    Consumes op c ∨ Leaves op c := by
  cases after with
  | some left =>
    obtain ⟨hrest, hr⟩ := hreads left rfl
    refine .inl ⟨lit, left, _, hrest, hr, ?_⟩
    rw [hrun, ← move_of_eq hrest]
    rfl
  | none =>
    refine .inr ⟨fun taken left a hrest hr => ?_, _, rfl, hrun⟩
    cases hread taken left a hrest hr

/-- Operations whose answer holds what a reader reads. -/
theorem consumes_or_leaves_take {α : Type} {op : Op} {reader : Text → Option (α × Text)}
    {answer : Option α → Answer} (hrun : op.run c = (c.take reader).map answer id)
    (hfailed : (answer none).isFailure = true)
    (hreads : ∀ x left, reader c.rest = some (x, left) →
      ∃ taken, c.rest = taken ++ left ∧ Recognises op taken left (answer (some x)))
    (hread : ∀ taken left a, c.rest = taken ++ left → Recognises op taken left a →
      ∃ x, reader c.rest = some (x, left)) :
    Consumes op c ∨ Leaves op c := by
  cases h : reader c.rest with
  | some p =>
    obtain ⟨x, left⟩ := p
    obtain ⟨taken, hrest, hr⟩ := hreads x left h
    refine .inl ⟨taken, left, _, hrest, hr, ?_⟩
    rw [hrun, take, h, ← move_of_eq hrest]
    rfl
  | none =>
    refine .inr ⟨fun taken left a hrest hr => ?_, answer none, hfailed, ?_⟩
    · obtain ⟨x, hx⟩ := hread taken left a hrest hr
      rw [h] at hx
      cases hx
    · rw [hrun, take, h]
      rfl

end

/-- **An operation consumes what it recognises, or leaves the cursor where it is.** -/
theorem Op.consumes_or_leaves (op : Op) (c : Cursor) : Consumes op c ∨ Leaves op c := by
  cases op with
  | skipBlanks =>
    have h : c.rest = c.rest.takeWhile isBlank ++ trimStart c.rest :=
      (takeWhile_append_trimStart c.rest).symm
    refine .inl ⟨_, _, _, h, .skipBlanks (allBlank_takeWhile _) (endsHere_dropWhile _ _), ?_⟩
    rw [Op.run, Cursor.skipBlanks, move_of_eq h]
    simp [pos, Prod.map]
  | eat lit =>
    refine consumes_or_leaves_eat lit (after? lit c.rest) ?_ (fun left h => ?_)
      fun taken left a hrest hr => ?_
    · rw [Op.run, Cursor.eat]
      cases after? lit c.rest <;> rfl
    · exact ⟨after?_eq_some_iff.1 h, .eat lit left⟩
    · cases hr
      exact after?_eq_some_iff.2 hrest
  | eatWord word =>
    refine consumes_or_leaves_eat word (word? word c.rest) ?_ (fun left h => ?_)
      fun taken left a hrest hr => ?_
    · rw [Op.run, Cursor.eatWord]
      cases word? word c.rest <;> rfl
    · obtain ⟨hrest, hend⟩ := word?_eq_some_iff.1 h
      exact ⟨hrest, .eatWord word hend⟩
    · cases hr with
      | eatWord _ hend => exact word?_eq_some_iff.2 ⟨hrest, hend⟩
  | takeQuoted =>
    refine consumes_or_leaves_take rfl rfl (fun raw left h => ?_) fun taken left a hrest hr => ?_
    · obtain ⟨hraw, hrest⟩ := quoted?_eq_some_iff.1 h
      exact ⟨_, by simp [hrest], .takeQuoted left hraw⟩
    · cases hr with
      | takeQuoted _ hraw => exact ⟨_, quoted?_eq_some_iff.2 ⟨hraw, by simp [hrest]⟩⟩
  | takeNatural =>
    refine consumes_or_leaves_take rfl rfl (fun n left h => ?_) fun taken left a hrest hr => ?_
    · obtain ⟨ds, hrest, hds, hend⟩ := natural?_eq_some_iff.1 h
      exact ⟨ds, hrest, .takeNatural hds hend⟩
    · cases hr with
      | takeNatural hds hend => exact ⟨_, natural?_eq_some_iff.2 ⟨_, hrest, hds, hend⟩⟩
  | takeIdentifier =>
    refine consumes_or_leaves_take rfl rfl (fun name left h => ?_) fun taken left a hrest hr => ?_
    · obtain ⟨hrest, hne, hall, hend⟩ := identifier?_eq_some_iff.1 h
      exact ⟨name, hrest, .takeIdentifier hne hall hend⟩
    · cases hr with
      | takeIdentifier hne hall hend =>
        exact ⟨_, identifier?_eq_some_iff.2 ⟨hrest, hne, hall, hend⟩⟩
  | atEnd =>
    cases h : allBlank c.rest with
    | true => exact .inl ⟨[], c.rest, _, rfl, .atEnd h, by simp [Op.run, Cursor.atEnd, h]⟩
    | false =>
      refine .inr ⟨fun taken left a hrest hr => ?_, .flag false, rfl,
        by simp [Op.run, Cursor.atEnd, h]⟩
      cases hr with
      | atEnd hblank =>
        rw [hrest, List.nil_append, hblank] at h
        cases h
  | rest => exact .inl ⟨[], c.rest, _, rfl, .rest _, by simp [Op.run]⟩

/-! ## Runs -/

theorem Op.split (op : Op) (c : Cursor) :
    ∃ taken, (op.run c).2.read = c.read ++ taken ∧ c.rest = taken ++ (op.run c).2.rest := by
  rcases op.consumes_or_leaves c with ⟨taken, left, a, hrest, -, hrun⟩ | ⟨-, a, -, hrun⟩
  · exact ⟨taken, by rw [hrun], by rw [hrun]; exact hrest⟩
  · exact ⟨[], by simp [hrun], by simp [hrun]⟩

/-- A run passes over a text: what it leaves is an end of what was left. -/
theorem exec_split (ops : List Op) (c : Cursor) :
    ∃ taken, (exec ops c).read = c.read ++ taken ∧ c.rest = taken ++ (exec ops c).rest := by
  induction ops generalizing c with
  | nil => exact ⟨[], by simp [exec]⟩
  | cons op ops ih =>
    obtain ⟨x, hread, hrest⟩ := op.split c
    obtain ⟨y, hread', hrest'⟩ := ih (op.run c).2
    refine ⟨x ++ y, ?_, ?_⟩
    · rw [exec, List.foldl_cons, ← exec, hread', hread, List.append_assoc]
    · rw [exec, List.foldl_cons, ← exec, hrest, hrest', List.append_assoc]

theorem pos_le_exec (ops : List Op) (c : Cursor) : c.pos ≤ (exec ops c).pos := by
  obtain ⟨taken, hread, -⟩ := exec_split ops c
  rw [pos, pos, hread, width_append]
  exact Nat.le_add_right _ _

/-- **Operations consume or leave.** After any run of operations from the start of a text the place
is a character boundary of it, and further operations never go back. From there, an operation that
fails leaves the place as it is, as it recognises nothing there; one that does not fail moves the
place by just the text that it recognises. -/
theorem exec_consumes_or_leaves (s : Text) (ops more : List Op) (op : Op) :
    let c := exec ops (start s)
    let c' := (op.run c).2
    cutAt? c.pos s = some (c.read, c.rest) ∧ c.pos ≤ (exec more c).pos ∧
      ((op.run c).1.isFailure = true →
        c' = c ∧ ∀ taken left a, c.rest = taken ++ left → ¬Recognises op taken left a) ∧
      ((op.run c).1.isFailure = false → ∃ taken, c.rest = taken ++ c'.rest ∧
        Recognises op taken c'.rest (op.run c).1 ∧ c'.pos = c.pos + width taken) := by
  intro c c'
  obtain ⟨taken, hread, hrest⟩ := exec_split ops (start s)
  have hs : s = c.read ++ c.rest := by
    rw [show c.read = taken from hread]
    exact hrest
  refine ⟨?_, pos_le_exec more c, ?_⟩
  · conv_lhs => rw [hs]
    exact Bytes.cutAt?_width c.read c.rest
  rcases op.consumes_or_leaves c with ⟨taken, left, a, hrest, hr, hrun⟩ | ⟨hnone, a, ha, hrun⟩
  · have hc' : c' = ⟨c.read ++ taken, left⟩ := congrArg Prod.snd hrun
    rw [hc', hrun]
    refine ⟨fun h => ?_, fun _ => ⟨taken, hrest, hr, by rw [pos, pos, width_append]⟩⟩
    rw [hr.isFailure] at h
    cases h
  · have hc' : c' = c := congrArg Prod.snd hrun
    rw [hc', hrun]
    refine ⟨fun _ => ⟨rfl, hnone⟩, fun h => ?_⟩
    rw [ha] at h
    cases h

/-- A number that does not fit 64 bits is not taken, and neither is a part of it. -/
example : Op.takeNatural.run ⟨[], "18446744073709551616 é".toList⟩ =
    (.natural none, ⟨[], "18446744073709551616 é".toList⟩) := by decide

end SpecHarvest.Source.Cursor
