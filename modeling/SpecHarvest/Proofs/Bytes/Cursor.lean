import Mathlib.Data.List.Forall2
import SpecHarvest.Proofs.Bytes.Scan
import SpecHarvest.Proofs.Source.Comment
import SpecHarvest.Proofs.Text.Blank
import SpecHarvest.Source.Reader

/-!
# Cursors over bytes

A cursor is a text with a byte offset. Every operation slices the text at the offset and moves it by
the width of what was read.

`Cursor.Reads c rest`: the cursor stands at a character boundary, before `rest`. `Agrees R x o`: a
checked computation goes wrong nowhere, finds something just when a reader of characters does, and
the two results are related. Every operation agrees with the reader of the same name and leaves its
cursor before what that reader leaves (`Reads.eat`, `Reads.takeQuoted`, …), so a sequence of
operations agrees with a sequence of readers (`Agrees.bind`).
-/

namespace SpecHarvest.Bytes

open Text Source

/-! ## Agreement -/

/-- A computation without faults whose result, if any, is related to that of a reader. -/
def Agrees {α β : Type} (R : α → β → Prop) (x : Found α) (o : Option β) : Prop :=
  ∃ o', x.run = .ok o' ∧ Option.Rel R o' o

namespace Agrees

variable {α β γ δ : Type} {R : α → β → Prop} {S : γ → δ → Prop}

theorem pure {a : α} {b : β} (h : R a b) : Agrees R (Pure.pure a) (some b) :=
  ⟨some a, rfl, .some h⟩

theorem failure : Agrees R Alternative.failure none := ⟨none, rfl, .none⟩

theorem bind_of {x : Found α} {o : Option β} {f : α → Found γ} {g : β → Option δ}
    (h : Agrees R x o) (hf : ∀ a b, o = some b → R a b → Agrees S (f a) (g b)) :
    Agrees S (x >>= f) (o >>= g) := by
  obtain ⟨o', hx, hr⟩ := h
  obtain rfl : x = OptionT.mk (.ok o') := hx
  cases hr with
  | none => exact .failure
  | some hab => exact hf _ _ rfl hab

theorem bind {x : Found α} {o : Option β} {f : α → Found γ} {g : β → Option δ} (h : Agrees R x o)
    (hf : ∀ a b, R a b → Agrees S (f a) (g b)) : Agrees S (x >>= f) (o >>= g) :=
  h.bind_of fun a b _ hab => hf a b hab

theorem none_bind {x : Found α} {f : α → Found γ} (h : Agrees R x none) :
    Agrees S (x >>= f) none := by
  obtain ⟨o', hx, hr⟩ := h
  obtain rfl : x = OptionT.mk (.ok o') := hx
  cases hr
  exact .failure

theorem some_bind {x : Found α} {a : α} {f : α → Found γ} {o : Option δ}
    (h : Agrees Eq x (some a)) (hf : Agrees S (f a) o) : Agrees S (x >>= f) o := by
  obtain ⟨o', hx, hr⟩ := h
  obtain rfl : x = OptionT.mk (.ok o') := hx
  cases hr with
  | some he =>
    subst he
    exact hf

theorem map {x : Found α} {o : Option α} (h : Agrees Eq x o) (f : α → γ) :
    Agrees Eq (f <$> x) (o.map f) := by
  obtain ⟨o', hx, hr⟩ := h
  obtain rfl : x = OptionT.mk (.ok o') := hx
  cases hr with
  | none => exact .failure
  | some h => exact .pure (congrArg f h)

theorem map_right {x : Found α} {o : Option β} (h : Agrees R x o) {f : β → γ} {S : α → γ → Prop}
    (hf : ∀ a b, R a b → S a (f b)) : Agrees S x (o.map f) := by
  obtain ⟨o', hx, hr⟩ := h
  refine ⟨o', hx, ?_⟩
  cases hr with
  | none => exact .none
  | some hab => exact .some (hf _ _ hab)

theorem bind_some {x : Found α} {o : Option δ} {T : α → δ → Prop} {f : α → Found γ}
    (h : Agrees T x o) (hf : ∀ a d, T a d → Agrees S (f a) (some d)) : Agrees S (x >>= f) o := by
  obtain ⟨o', hx, hr⟩ := h
  obtain rfl : x = OptionT.mk (.ok o') := hx
  cases hr with
  | none => exact .failure
  | some had => exact hf _ _ had

theorem bind_map {x : Found α} {o : Option β} {f : α → Found γ} {g : β → δ} (h : Agrees R x o)
    (hf : ∀ a b, R a b → Agrees S (f a) (some (g b))) : Agrees S (x >>= f) (o.map g) := by
  have hmap : Agrees (fun a d => ∃ b, R a b ∧ g b = d) x (o.map g) :=
    h.map_right fun a b hab => ⟨b, hab, rfl⟩
  refine hmap.bind_some ?_
  rintro a _ ⟨b, hab, rfl⟩
  exact hf a b hab

theorem lift {x : Checked α} {a : α} {f : α → Found γ} {o : Option δ} (hx : x = .ok a)
    (h : Agrees S (f a) o) : Agrees S (liftM x >>= f) o := by
  subst hx
  exact h

theorem found {x : Checked (Option α)} {a : α} {f : α → Found γ} {o : Option δ}
    (hx : x = .ok (some a)) (h : Agrees S (f a) o) : Agrees S (OptionT.mk x >>= f) o := by
  subst hx
  exact h

theorem missing {x : Checked (Option α)} {f : α → Found γ} (hx : x = .ok none) :
    Agrees S (OptionT.mk x >>= f) none := by
  subst hx
  exact .failure

theorem lifted {x : Checked γ} {c : γ} {d : δ} (hx : x = .ok c) (h : S c d) :
    Agrees S (liftM x) (some d) := by
  subst hx
  exact ⟨some c, rfl, .some h⟩

theorem eq_iff {x : Found α} {o : Option α} : Agrees Eq x o ↔ x.run = .ok o := by
  constructor
  · rintro ⟨o', hx, hr⟩
    cases hr with
    | none => exact hx
    | some h => exact h ▸ hx
  · intro h
    refine ⟨o, h, ?_⟩
    cases o with
    | none => exact .none
    | some a => exact .some rfl

theorem orElse {x y : Found α} {o o' : Option β} (h : Agrees R x o) (h' : Agrees R y o') :
    Agrees R (x <|> y) (o.or o') := by
  obtain ⟨p, hx, hr⟩ := h
  have hrun : (x <|> y).run = x.run >>= fun o => _ := rfl
  cases hr with
  | none =>
    obtain ⟨q, hy, hq⟩ := h'
    refine ⟨q, ?_, hq⟩
    rw [hrun, hx]
    exact hy
  | some hab =>
    refine ⟨_, ?_, .some hab⟩
    rw [hrun, hx]
    rfl

end Agrees

/-- The same text, and a small one. -/
def SameText (t t' : Text) : Prop := t = t' ∧ Small t

/-! ## Several readers, several texts -/

/-- Whether something is found, and what. -/
def attempt {α : Type} (x : Found α) : Found (Option α) := OptionT.lift x.run

theorem Agrees.attempt {α β γ δ : Type} {R : α → β → Prop} {S : γ → δ → Prop} {x : Found α}
    {o : Option β} {f : Option α → Found γ} {p : Option δ} (h : Agrees R x o)
    (hf : ∀ o', Option.Rel R o' o → Agrees S (f o') p) : Agrees S (attempt x >>= f) p := by
  obtain ⟨o', hx, hr⟩ := h
  obtain rfl : x = OptionT.mk (.ok o') := hx
  exact hf o' hr

theorem Agrees.attempt_eq {α γ δ : Type} {S : γ → δ → Prop} {x : Found α} {o : Option α}
    {f : Option α → Found γ} {p : Option δ} (h : Agrees Eq x o) (hf : Agrees S (f o) p) :
    Agrees S (Bytes.attempt x >>= f) p := by
  obtain rfl : x = OptionT.mk (.ok o) := Agrees.eq_iff.1 h
  exact hf

/-- What the first reader finds that finds something. -/
def firstOf {α : Type} : List (Text → Found α) → Text → Found α
  | [], _ => failure
  | read :: readers, s => read s <|> firstOf readers s

/-- What a reader finds in each of some texts. -/
def collect {α : Type} (read : Text → Found α) : List Text → Found (List α)
  | [] => return []
  | s :: ss => do
    let a ← read s
    return a :: (← collect read ss)

theorem firstOf_agrees {α β : Type} {R : α → β → Prop} {readers : List (Text → Found α)}
    {readers' : List (Text → Option β)} {s : Text}
    (h : List.Forall₂ (fun r r' => Agrees R (r s) (r' s)) readers readers') :
    Agrees R (firstOf readers s) (readers'.findSome? (· s)) := by
  induction h with
  | nil => exact .failure
  | @cons r r' rs rs' hr hrs ih =>
    have hor : (r' :: rs').findSome? (· s) = (r' s).or (rs'.findSome? (· s)) := by
      rw [List.findSome?_cons]
      cases r' s <;> rfl
    rw [hor]
    exact hr.orElse ih

theorem firstOf_map_agrees {ι α β : Type} {R : α → β → Prop} {f : ι → Text → Found α}
    {g : ι → Text → Option β} {s : Text} (is : List ι)
    (h : ∀ i ∈ is, Agrees R (f i s) (g i s)) :
    Agrees R (firstOf (is.map f) s) (is.findSome? fun i => g i s) := by
  have hmap : (is.findSome? fun i => g i s) = (is.map g).findSome? (· s) := by
    rw [List.findSome?_map]
    rfl
  rw [hmap]
  refine firstOf_agrees (List.forall₂_map_left_iff.2 (List.forall₂_map_right_iff.2 ?_))
  exact List.forall₂_same.2 h

theorem collect_agrees {α : Type} {read : Text → Found α} {read' : Text → Option α}
    {ss : List Text} (h : ∀ s ∈ ss, Agrees Eq (read s) (read' s)) :
    Agrees Eq (collect read ss) (ss.mapM read') := by
  induction ss with
  | nil => exact .pure rfl
  | cons s ss ih =>
    rw [List.mapM_cons]
    refine (h s (by simp)).bind ?_
    rintro a _ rfl
    refine (ih fun t ht => h t (by simp [ht])).bind ?_
    rintro as _ rfl
    exact .pure rfl

/-! ## Cursors -/

theorem length_takeWhile {q : Char → Bool} (hq : ∀ d, q d = true → d.toNat < 0x80) (s : Text) :
    ((bytes s).takeWhile (ascii q)).length = width (s.takeWhile q) := by
  rw [(onBytes_ascii hq).takeWhile, length_bytes]

/-- A text and an offset in it. -/
structure Cursor where
  text : Text
  pos : Nat

namespace Cursor

/-- The start of a text. -/
def start (s : Text) : Cursor := ⟨s, 0⟩

/-- What is left. -/
def rest (c : Cursor) : Checked Text := sliceFrom c.text c.pos

/-- The cursor moved on. -/
def advance (n : Nat) (c : Cursor) : Checked Cursor := do
  return ⟨c.text, ← add c.pos n⟩

/-- Past white space, with the number of bytes passed. -/
def skipBlanks (c : Cursor) : Checked (Nat × Cursor) := do
  let rest ← c.rest
  let skipped ← sub (width rest) (width (trimStart rest))
  return (skipped, ← c.advance skipped)

/-- Past white space, if there is any. -/
def skip (c : Cursor) : Checked Cursor := do
  let (_, c) ← c.skipBlanks
  return c

/-- Past white space, of which there must be some. -/
def blanks (c : Cursor) : Found Cursor := do
  let (skipped, c) ← c.skipBlanks
  if skipped = 0 then failure else return c

/-- Past a given text. -/
def eat (lit : Text) (c : Cursor) : Found Cursor := do
  if startsWith lit (← c.rest) then c.advance (width lit) else failure

/-- Past a given word that no identifier continues. -/
def eatWord (word : Text) (c : Cursor) : Found Cursor := do
  let rest ← c.rest
  if !startsWith word rest then failure
  else if (byte? rest (width word)).any (ascii isIdentChar) then failure
  else c.advance (width word)

/-- Past a string literal, with what it holds as written. -/
def takeQuoted (c : Cursor) : Found (Text × Cursor) := do
  let close ← OptionT.mk (closingQuote c.text c.pos)
  let raw ← slice c.text (← add c.pos 1) close
  return (raw, ⟨c.text, ← add close 1⟩)

/-- Past a string literal that holds something. -/
def takeNonempty (c : Cursor) : Found (Text × Cursor) := do
  let (raw, c) ← c.takeQuoted
  if raw.isEmpty then failure else return (raw, c)

/-- Past a number below 2^64. -/
def takeNatural (c : Cursor) : Found (Nat × Cursor) := do
  let rest ← c.rest
  let len := ((bytes rest).takeWhile (ascii Char.isDigit)).length
  if len = 0 then failure
  else
    let n := digitsValue (← slice rest 0 len)
    if n ≤ maxNatural then return (n, ← c.advance len) else failure

/-- Past an identifier. -/
def takeIdentifier (c : Cursor) : Found (Text × Cursor) := do
  let rest ← c.rest
  let len := ((bytes rest).takeWhile (ascii isIdentChar)).length
  if len = 0 then failure
  else
    let c ← c.advance len
    return (← slice rest 0 len, c)

/-- Whether only white space is left. -/
def atEnd (c : Cursor) : Checked Bool := do
  return (trim (← c.rest)).isEmpty

/-- The cursor stands before `rest`, in a text of fewer than 2^31 bytes. -/
def Reads (c : Cursor) (rest : Text) : Prop := Small c.text ∧ At c.text c.pos rest

/-- What two readers read, with what each of them leaves. -/
def SameRead {α : Type} (x : α × Cursor) (y : α × Text) : Prop := x.1 = y.1 ∧ x.2.Reads y.2

theorem reads_start {s : Text} (hs : Small s) : (start s).Reads s := ⟨hs, at_zero s⟩

namespace Reads

variable {c : Cursor} {r : Text}

theorem small (h : c.Reads r) : Small r := by
  have := h.2.add_width
  exact Nat.lt_of_le_of_lt (by omega) h.1

theorem rest (h : c.Reads r) : c.rest = .ok r := h.2.sliceFrom

theorem advance {a : Text} (h : c.Reads (a ++ r)) :
    c.advance (width a) = .ok ⟨c.text, c.pos + width a⟩ := by
  have hw := h.2.add_width
  have hs : width c.text < 2 ^ 31 := h.1
  rw [width_append] at hw
  rw [Cursor.advance, add_of_lt (by omega)]
  rfl

theorem append {a : Text} (h : c.Reads (a ++ r)) : Reads ⟨c.text, c.pos + width a⟩ r :=
  ⟨h.1, h.2.append⟩

theorem skipBlanks (h : c.Reads r) : ∃ c', c.skipBlanks = .ok (width (r.takeWhile isBlank), c') ∧
    c'.Reads (trimStart r) := by
  have hr := takeWhile_append_trimStart r
  have hw := congrArg width hr
  rw [width_append] at hw
  rw [← hr] at h
  refine ⟨_, ?_, h.append⟩
  rw [Cursor.skipBlanks, h.rest, hr]
  simp only [ok_bind]
  rw [sub_of_le (by omega), ← hw, Nat.add_sub_cancel, ok_bind, h.advance]
  rfl

theorem skip (h : c.Reads r) : ∃ c', c.skip = .ok c' ∧ c'.Reads (trimStart r) := by
  obtain ⟨c', hc, h'⟩ := h.skipBlanks
  exact ⟨c', by rw [Cursor.skip, hc]; rfl, h'⟩

theorem blanks (h : c.Reads r) : Agrees Reads c.blanks (blanks? r) := by
  obtain ⟨c', hc, h'⟩ := h.skipBlanks
  refine Agrees.lift hc ?_
  show Agrees Reads (if _ = 0 then failure else pure c') _
  cases r with
  | nil => exact .failure
  | cons d t =>
    rw [blanks?]
    cases hd : isBlank d with
    | false =>
      rw [List.takeWhile_cons, hd]
      exact .failure
    | true =>
      have := width_pos d (t.takeWhile isBlank)
      rw [List.takeWhile_cons, hd, if_pos rfl, if_pos rfl, if_neg (by omega)]
      exact .pure (by simpa [trimStart, hd] using h')

theorem eat (h : c.Reads r) (lit : Text) : Agrees Reads (c.eat lit) (after? lit r) := by
  refine Agrees.lift h.rest ?_
  cases ha : after? lit r with
  | none =>
    rw [if_neg (by simp [startsWith, ha])]
    exact .failure
  | some t =>
    rw [if_pos (by simp [startsWith, ha])]
    rw [after?_eq_some_iff.1 ha] at h
    exact .lifted h.advance h.append

theorem eatWord (h : c.Reads r) (word : Text) :
    Agrees Reads (c.eatWord word) (word? word r) := by
  refine Agrees.lift h.rest ?_
  rw [word?]
  cases ha : after? word r with
  | none =>
    rw [if_pos (by simp [startsWith, ha])]
    exact .failure
  | some t =>
    have hr := after?_eq_some_iff.1 ha
    have hnext : (byte? r (width word)).any (ascii isIdentChar) = !endsHere isIdentChar t := by
      have ht : At r (width word) t := ⟨word, hr, rfl⟩
      cases t with
      | nil =>
        have hb := ht.byte? 0
        rw [Nat.add_zero] at hb
        rw [hb]
        rfl
      | cons d t =>
        rw [ht.byte?_cons, Option.any_some, onBytes_ascii lt_of_isIdentChar d _ (lead_mem d)]
        simp [endsHere]
    rw [if_neg (by simp [startsWith, ha]), hnext, Option.filter_some]
    rw [hr] at h
    cases endsHere isIdentChar t with
    | false => exact .failure
    | true => exact .lifted h.advance h.append

theorem takeQuoted (h : c.Reads r) : Agrees SameRead c.takeQuoted (quoted? r) := by
  have hsmall : width c.text < 2 ^ 31 := h.1
  cases hr : quoted? r with
  | none => exact .missing (by rw [closingQuote_at h.1 h.2, hr]; rfl)
  | some p =>
    obtain ⟨raw, t⟩ := p
    have hq : closingQuote c.text c.pos = .ok (some (c.pos + 1 + width raw)) := by
      rw [closingQuote_at h.1 h.2, hr]
      rfl
    have hat : At c.text (c.pos + 1) (raw ++ '"' :: t) :=
      ((quoted?_eq_some_iff.1 hr).2 ▸ h.2).cons_ascii (by decide)
    have hend : At c.text (c.pos + 1 + width raw + 1) t := hat.append.cons_ascii (by decide)
    have hw := hend.add_width
    refine .found hq (.lift (add_of_lt (by omega)) ?_)
    refine .lift (hat.slice rfl) (.lift (add_of_lt (by omega)) ?_)
    exact .pure ⟨rfl, h.1, hend⟩

theorem takeNonempty (h : c.Reads r) : Agrees SameRead c.takeNonempty (nonemptyQuoted? r) := by
  have hfilter : nonemptyQuoted? r = quoted? r >>= fun p => if p.1.isEmpty then none else some p := by
    rw [nonemptyQuoted?]
    cases quoted? r with
    | none => rfl
    | some p =>
      obtain ⟨raw, t⟩ := p
      cases raw <;> rfl
  rw [hfilter]
  refine h.takeQuoted.bind ?_
  rintro ⟨raw, c⟩ ⟨_, t⟩ ⟨rfl, hc⟩
  show Agrees SameRead (if raw.isEmpty then _ else _) (if raw.isEmpty then _ else _)
  split
  · exact .failure
  · exact .pure ⟨rfl, hc⟩

theorem takeNatural (h : c.Reads r) : Agrees SameRead c.takeNatural (natural? r) := by
  refine .lift h.rest ?_
  rw [length_takeWhile lt_of_isDigit, natural?]
  have hr := List.takeWhile_append_dropWhile (p := Char.isDigit) (l := r)
  cases hd : r.takeWhile Char.isDigit with
  | nil => exact .failure
  | cons d ds =>
    rw [hd] at hr
    have := width_pos d ds
    rw [if_neg (by omega), List.isEmpty_cons, if_neg Bool.false_ne_true]
    have hat : At r 0 ((d :: ds) ++ r.dropWhile Char.isDigit) := by
      rw [hr]
      exact at_zero r
    refine .lift (hat.slice (by omega)) ?_
    rw [← hr] at h
    show Agrees SameRead (if digitsValue (d :: ds) ≤ _ then _ else _)
      (if digitsValue (d :: ds) ≤ _ then _ else _)
    split
    · exact .lift h.advance (.pure ⟨rfl, h.append⟩)
    · exact .failure

theorem takeIdentifier (h : c.Reads r) : Agrees SameRead c.takeIdentifier (identifier? r) := by
  refine .lift h.rest ?_
  rw [length_takeWhile lt_of_isIdentChar, identifier?]
  have hr := List.takeWhile_append_dropWhile (p := isIdentChar) (l := r)
  cases hd : r.takeWhile isIdentChar with
  | nil => exact .failure
  | cons d ds =>
    rw [hd] at hr
    have := width_pos d ds
    rw [if_neg (by omega), List.isEmpty_cons, if_neg Bool.false_ne_true]
    have hat : At r 0 ((d :: ds) ++ r.dropWhile isIdentChar) := by
      rw [hr]
      exact at_zero r
    rw [← hr] at h
    exact .lift h.advance (.lift (hat.slice (by omega)) (.pure ⟨rfl, h.append⟩))

theorem atEnd (h : c.Reads r) : c.atEnd = .ok (allBlank r) := by
  rw [Cursor.atEnd, h.rest, ok_bind, isEmpty_trim]
  rfl

theorem skip_bind {γ δ : Type} {S : γ → δ → Prop} {f : Cursor → Found γ} {o : Option δ} (h : c.Reads r)
    (hf : ∀ c', c'.Reads (trimStart r) → Agrees S (f c') o) :
    Agrees S (liftM c.skip >>= f) o := by
  obtain ⟨c', hc, h'⟩ := h.skip
  exact .lift hc (hf c' h')

end Reads

end Cursor

/-- A reader that agrees goes on where the other one does. -/
theorem Agrees.bind_read {α γ δ : Type} {S : γ → δ → Prop} {x : Found (α × Cursor)}
    {o : Option (α × Text)} {f : α × Cursor → Found γ} {g : α × Text → Option δ}
    (h : Agrees Cursor.SameRead x o)
    (hf : ∀ a c r, c.Reads r → Agrees S (f (a, c)) (g (a, r))) : Agrees S (x >>= f) (o >>= g) := by
  refine h.bind ?_
  rintro ⟨a, c⟩ ⟨_, r⟩ ⟨rfl, hc⟩
  exact hf a c r hc

end SpecHarvest.Bytes
