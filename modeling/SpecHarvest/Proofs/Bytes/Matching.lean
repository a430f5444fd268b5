import Mathlib.Order.Bounds.Basic
import SpecHarvest.Proofs.Bytes.Scan
import SpecHarvest.Source.Position

/-!
# The balancing delimiter, by counting bytes

* `Mode`: where a byte stands that is read after some others, outside literals or in one.
* `Balances`: a position up to which as many closing as opening delimiters stand outside literals,
  and before which every literal is closed.
* `Shift`: bytes that take one depth to another and never reach depth 0.
* `matching?_searches`: the search of a closing delimiter passes over such bytes only.
* `matchingAt?_isLeast`: so it finds the least position that balances, and none if there is none.
-/

namespace SpecHarvest.Bytes

open Text Source

/-! ## Bytes outside literals -/

/-- Where a byte stands, told by the bytes before it: outside literals, in one, or in one and after
a backslash that escapes it. -/
inductive Mode where
  | code
  | literal
  | escaped
  deriving DecidableEq, Repr

namespace Mode

/-- Where the next byte stands. -/
def next : Mode → UInt8 → Mode
  | .code, b => if b = '"'.toUInt8 then .literal else .code
  | .literal, b =>
    if b = '\\'.toUInt8 then .escaped else if b = '"'.toUInt8 then .code else .literal
  | .escaped, _ => .literal

/-- Where the byte after some bytes stands. -/
def after (m : Mode) (bs : List UInt8) : Mode := bs.foldl next m

/-- Those of some bytes that stand outside literals. -/
def outside : Mode → List UInt8 → List UInt8
  | _, [] => []
  | .code, b :: bs => b :: outside (next .code b) bs
  | m, b :: bs => outside (m.next b) bs

@[simp] theorem outside_nil (m : Mode) : m.outside [] = [] := by cases m <;> rfl

theorem after_append (m : Mode) (xs ys : List UInt8) :
    m.after (xs ++ ys) = (m.after xs).after ys := List.foldl_append

theorem outside_append (m : Mode) (xs ys : List UInt8) :
    m.outside (xs ++ ys) = m.outside xs ++ (m.after xs).outside ys := by
  induction xs generalizing m with
  | nil => rw [outside_nil]; rfl
  | cons b xs ih =>
    cases m with
    | code => exact congrArg (b :: ·) (ih (next .code b))
    | literal => exact ih (next .literal b)
    | escaped => exact ih (next .escaped b)

end Mode

/-- The bytes from an offset up to another. -/
def between (s : Text) (i j : Nat) : List UInt8 := ((bytes s).take j).drop i

theorem between_at {s rest : Text} {i : Nat} (h : At s i rest) (k : Nat) :
    between s i (i + k) = (bytes rest).take k := by
  rw [between, List.drop_take, h.drop_bytes, Nat.add_sub_cancel_left]

/-- A position after `start` such that each literal that opens from `start` on is closed before it,
and of the bytes from `start` to the position that stand outside literals as many are `closed` as
`opened`. -/
structure Balances (opened closed : Char) (s : Text) (start j : Nat) : Prop where
  after : start < j
  inside : j < width s
  literals : Mode.code.after (between s start j) = .code
  count : (Mode.code.outside (between s start (j + 1))).count closed.toUInt8 =
    (Mode.code.outside (between s start (j + 1))).count opened.toUInt8

/-! ## Depths -/

variable {o c : UInt8} {n n' n'' : Nat} {m m' m'' : Mode} {xs ys : List UInt8}

/-- With `n` delimiters open before, one is open after each of the first bytes. -/
def Deep (o c : UInt8) (n : Nat) (m : Mode) (bs : List UInt8) : Prop :=
  ∀ w, w <+: bs → (m.outside w).count c < n + (m.outside w).count o

/-- Bytes after which `n'` delimiters are open if `n` were before them, without being all closed
meanwhile. -/
structure Shift (o c : UInt8) (n : Nat) (m : Mode) (bs : List UInt8) (n' : Nat) (m' : Mode) :
    Prop where
  mode : m.after bs = m'
  count : n' + (m.outside bs).count c = n + (m.outside bs).count o
  deep : Deep o c n m bs

theorem Shift.deep_append (h : Shift o c n m xs n' m') (hys : Deep o c n' m' ys) :
    Deep o c n m (xs ++ ys) := by
  intro w hw
  rcases List.prefix_or_prefix_of_prefix hw (List.prefix_append xs ys) with hx | ⟨z, rfl⟩
  · exact h.deep w hx
  · have hz := hys z ((List.prefix_append_right_inj xs).1 hw)
    have hcount := h.count
    rw [Mode.outside_append, h.mode, List.count_append, List.count_append]
    omega

theorem Shift.trans (h : Shift o c n m xs n' m') (h' : Shift o c n' m' ys n'' m'') :
    Shift o c n m (xs ++ ys) n'' m'' where
  mode := by rw [Mode.after_append, h.mode, h'.mode]
  count := by
    have hcount := h.count
    have hcount' := h'.count
    rw [Mode.outside_append, h.mode, List.count_append, List.count_append]
    omega
  deep := h.deep_append h'.deep

theorem Shift.nil (hn : 0 < n) : Shift o c n m [] n m where
  mode := rfl
  count := by rw [Mode.outside_nil, List.count_nil, List.count_nil]
  deep w hw := by
    rw [List.prefix_nil.1 hw, Mode.outside_nil]
    exact hn

/-- One byte is a shift if its count is. -/
theorem shift_singleton {b : UInt8} (hn : 0 < n) (hn' : 0 < n')
    (hcount : n' + (m.outside [b]).count c = n + (m.outside [b]).count o) :
    Shift o c n m [b] n' (m.next b) where
  mode := rfl
  count := hcount
  deep w hw := by
    rcases List.prefix_cons_iff.1 hw with rfl | ⟨t, rfl, ht⟩
    · rw [Mode.outside_nil]
      exact hn
    · rw [List.prefix_nil.1 ht]
      omega

theorem shift_quiet {b : UInt8} (hn : 0 < n) (h : m = .code → b ≠ o ∧ b ≠ c) :
    Shift o c n m [b] n (m.next b) := by
  refine shift_singleton hn hn ?_
  cases m with
  | code =>
    obtain ⟨ho, hc⟩ := h rfl
    simp [Mode.outside, ho, hc]
  | literal => rfl
  | escaped => rfl

theorem shift_of_forall {bs : List UInt8} (hn : 0 < n)
    (h : ∀ b ∈ bs, m.next b = m ∧ (m = .code → b ≠ o ∧ b ≠ c)) : Shift o c n m bs n m := by
  induction bs with
  | nil => exact .nil hn
  | cons b bs ih =>
    rw [List.forall_mem_cons] at h
    obtain ⟨⟨hnext, hb⟩, hbs⟩ := h
    have hhead := shift_quiet hn hb
    rw [hnext] at hhead
    exact hhead.trans (ih hbs)

/-! ## Characters -/

theorem toUInt8_ne {a b : Char} (ha : a.toNat < 0x80) (hb : b.toNat < 0x80) (h : a ≠ b) :
    a.toUInt8 ≠ b.toUInt8 := by
  rw [← lead_of_lt ha]
  exact mt (lead_eq_iff hb).1 h

/-- Where the bytes of a character stand. -/
def Mode.ofLiteral (inLiteral : Bool) : Mode := if inLiteral then .literal else .code

theorem shift_escaped (hn : 0 < n) (d : Char) :
    Shift o c n .literal (bytes ['\\', d]) n .literal := by
  obtain ⟨b, bs, hbs⟩ := List.exists_cons_of_length_pos
    (String.length_utf8EncodeChar d ▸ d.utf8Size_pos)
  have hbytes : bytes ['\\', d] = ['\\'.toUInt8] ++ ([b] ++ bs) := by
    rw [bytes_cons, bytes_cons, bytes_nil, List.append_nil, utf8EncodeChar_of_lt (by decide), hbs]
    rfl
  have hlead : Shift o c n .literal ['\\'.toUInt8] n .escaped := shift_quiet hn (by simp)
  have hfirst : Shift o c n .escaped [b] n .literal := shift_quiet hn (by simp)
  rw [hbytes]
  refine hlead.trans (hfirst.trans (shift_of_forall hn fun e he => ⟨?_, by simp⟩))
  -- only the first byte of a character can be of ASCII
  have hhigh : 0x80 ≤ e.toNat := by
    by_cases hd : d.toNat < 0x80
    · rw [utf8EncodeChar_of_lt hd] at hbs
      obtain ⟨-, rfl⟩ := List.cons.inj hbs
      cases he
    · exact le_of_mem_utf8EncodeChar (Nat.le_of_not_lt hd) (hbs ▸ List.mem_cons_of_mem b he)
  rw [Mode.next, if_neg (ne_toUInt8_of_le hhigh (by decide)),
    if_neg (ne_toUInt8_of_le hhigh (by decide))]

theorem shift_inLiteral (hn : 0 < n) {d : Char} (hd : d ≠ '\\') :
    Shift o c n .literal (String.utf8EncodeChar d) n (.ofLiteral (d != '"')) := by
  by_cases hq : d = '"'
  · subst hq
    exact shift_quiet hn (by simp)
  · have hliteral : Mode.ofLiteral (d != '"') = .literal := by simp [Mode.ofLiteral, hq]
    rw [hliteral]
    refine shift_of_forall hn fun b hb => ⟨?_, by simp⟩
    rw [Mode.next, if_neg (mt (eq_toUInt8_iff hb (by decide)).1 hd),
      if_neg (mt (eq_toUInt8_iff hb (by decide)).1 hq)]

/-- Two ASCII characters, different from each other and from the quote. -/
structure Delimiters (opened closed : Char) : Prop where
  opened_lt : opened.toNat < 0x80
  closed_lt : closed.toNat < 0x80
  ne : opened ≠ closed
  opened_ne : opened ≠ '"'
  closed_ne : closed ≠ '"'

section

variable {opened closed : Char} (hd : Delimiters opened closed)
include hd

theorem Delimiters.opened_ne_closed : opened.toUInt8 ≠ closed.toUInt8 :=
  toUInt8_ne hd.opened_lt hd.closed_lt hd.ne

theorem Delimiters.next_opened : Mode.next .code opened.toUInt8 = .code :=
  if_neg (toUInt8_ne hd.opened_lt (by decide) hd.opened_ne)

theorem Delimiters.next_closed : Mode.next .code closed.toUInt8 = .code :=
  if_neg (toUInt8_ne hd.closed_lt (by decide) hd.closed_ne)

theorem shift_char (hn : 0 < n) {e : Char} (hq : e ≠ '"') (ho : e ≠ opened) (hc : e ≠ closed) :
    Shift opened.toUInt8 closed.toUInt8 n .code (String.utf8EncodeChar e) n .code := by
  refine shift_of_forall hn fun b hb => ⟨?_, fun _ => ⟨?_, ?_⟩⟩
  · rw [Mode.next, if_neg (mt (eq_toUInt8_iff hb (by decide)).1 hq)]
  · exact mt (eq_toUInt8_iff hb hd.opened_lt).1 ho
  · exact mt (eq_toUInt8_iff hb hd.closed_lt).1 hc

theorem shift_quote (hn : 0 < n) :
    Shift opened.toUInt8 closed.toUInt8 n .code (String.utf8EncodeChar '"') n .literal := by
  rw [utf8EncodeChar_of_lt (by decide)]
  exact shift_quiet hn fun _ => ⟨toUInt8_ne (by decide) hd.opened_lt (Ne.symm hd.opened_ne),
    toUInt8_ne (by decide) hd.closed_lt (Ne.symm hd.closed_ne)⟩

theorem shift_opened (hn : 0 < n) :
    Shift opened.toUInt8 closed.toUInt8 n .code (String.utf8EncodeChar opened) (n + 1) .code := by
  have h : Shift opened.toUInt8 closed.toUInt8 n .code [opened.toUInt8] (n + 1)
      (Mode.next .code opened.toUInt8) :=
    shift_singleton hn (Nat.succ_pos n) (by simp [Mode.outside, hd.opened_ne_closed])
  rw [hd.next_opened] at h
  rwa [utf8EncodeChar_of_lt hd.opened_lt]

theorem shift_closed (hn : 0 < n) :
    Shift opened.toUInt8 closed.toUInt8 (n + 1) .code (String.utf8EncodeChar closed) n .code := by
  have h : Shift opened.toUInt8 closed.toUInt8 (n + 1) .code [closed.toUInt8] n
      (Mode.next .code closed.toUInt8) :=
    shift_singleton (Nat.succ_pos n) hn (by simp [Mode.outside, hd.opened_ne_closed.symm])
  rw [hd.next_closed] at h
  rwa [utf8EncodeChar_of_lt hd.closed_lt]

end

/-! ## The search -/

/-- What a search says that starts with `n` delimiters open: the text before the delimiter that it
finds leaves one open, and if it finds none, one stays open to the end. -/
structure Searches (o c : UInt8) (n : Nat) (m : Mode) (s : Text)
    (found : Option (Text × Text)) : Prop where
  some : ∀ p, found = some p → Shift o c n m (bytes p.1) 1 .code
  none : found = none → Deep o c n m (bytes s)

theorem Searches.step {x s : Text} {found : Option (Text × Text)}
    (hx : Shift o c n m (bytes x) n' m') (h : Searches o c n' m' s found) :
    Searches o c n m (x ++ s) (found.map fun p => (x ++ p.1, p.2)) where
  some p hp := by
    obtain ⟨q, hq, rfl⟩ := Option.map_eq_some_iff.1 hp
    rw [bytes_append]
    exact hx.trans (h.some q hq)
  none hp := by
    rw [bytes_append]
    exact hx.deep_append (h.none (Option.map_eq_none_iff.1 hp))

theorem Searches.cons {e : Char} {s : Text} {found : Option (Text × Text)}
    (hx : Shift o c n m (String.utf8EncodeChar e) n' m') (h : Searches o c n' m' s found) :
    Searches o c n m (e :: s) (found.map fun p => (e :: p.1, p.2)) := by
  refine h.step (x := [e]) ?_
  rwa [bytes_cons, bytes_nil, List.append_nil]

section

variable {opened closed : Char} (hd : Delimiters opened closed)
include hd

/-- **A search passes over bytes only that leave a delimiter open.** -/
theorem matching?_searches (hn : 0 < n) (q : Bool) (s : Text) :
    Searches opened.toUInt8 closed.toUInt8 n (.ofLiteral q) s (matching? opened closed n q s) := by
  fun_induction matching? opened closed n q s with
  | case1 n q => exact ⟨fun _ hp => absurd hp (by simp), fun _ => (Shift.nil hn).deep⟩
  | case2 n e s ih => exact (ih hn).step (x := ['\\', e]) (shift_escaped hn e)
  | case3 n e s hesc ih =>
    by_cases he : e = '\\'
    · subst he
      cases s with
      | cons f s => exact (hesc f s rfl rfl).elim
      | nil =>
        have hlast : Shift opened.toUInt8 closed.toUInt8 n .literal (bytes ['\\']) n .escaped :=
          shift_quiet hn (by simp)
        exact ⟨fun _ hp => absurd hp (by simp [matching?]), fun _ => hlast.deep⟩
    · exact (ih hn).cons (shift_inLiteral hn he)
  | case4 n s ih => exact (ih hn).cons (shift_quote hd hn)
  | case5 n s _ ih => exact (ih (Nat.succ_pos n)).cons (shift_opened hd hn)
  | case6 => exact absurd hn (Nat.lt_irrefl 0)
  | case7 s =>
    refine ⟨fun p hp => ?_, fun hp => absurd hp (by simp)⟩
    obtain rfl := Option.some.inj hp
    exact .nil hn
  | case8 s n hn0 _ _ ih =>
    have hn' : 0 < n := Nat.pos_of_ne_zero hn0
    exact (ih hn').cons (shift_closed hd hn')
  | case9 n e s hq ho hc ih => exact (ih hn).cons (shift_char hd hn hq ho hc)

/-! ## Positions -/

variable {s rest : Text} {start : Nat}

theorem between_opened (h : At s start (opened :: rest)) (k : Nat) :
    between s start (start + k + 1) = opened.toUInt8 :: (bytes rest).take k := by
  rw [Nat.add_assoc, between_at h, bytes_cons, utf8EncodeChar_of_lt hd.opened_lt,
    List.singleton_append, List.take_succ_cons]

theorem outside_opened (bs : List UInt8) :
    Mode.code.outside (opened.toUInt8 :: bs) = opened.toUInt8 :: Mode.code.outside bs := by
  rw [Mode.outside, hd.next_opened]

/-- Where one delimiter stays open, more are opened than closed. -/
theorem count_lt_of_deep (h : At s start (opened :: rest)) {bs : List UInt8}
    (hbs : bs <+: bytes rest) (hdeep : Deep opened.toUInt8 closed.toUInt8 1 .code bs) {k : Nat}
    (hk : k ≤ bs.length) :
    (Mode.code.outside (between s start (start + k + 1))).count closed.toUInt8 <
      (Mode.code.outside (between s start (start + k + 1))).count opened.toUInt8 := by
  have htake : (bytes rest).take k <+: bs := by
    obtain ⟨t, ht⟩ := hbs
    rw [← ht, List.take_append_of_le_length hk]
    exact List.take_prefix k bs
  have hcount := hdeep _ htake
  rw [between_opened hd h, outside_opened hd, List.count_cons_self,
    List.count_cons_of_ne hd.opened_ne_closed]
  omega

/-- What is found balances. -/
theorem balances_of_shift {inner : Text} (h : At s start (opened :: (inner ++ closed :: rest)))
    (hinner : Shift opened.toUInt8 closed.toUInt8 1 .code (bytes inner) 1 .code) :
    Balances opened closed s start (start + width inner + 1) where
  after := by omega
  inside := by
    have hw := h.add_width
    have := closed.utf8Size_pos
    rw [width_cons, width_append, width_cons, utf8Size_of_lt hd.opened_lt] at hw
    omega
  literals := by
    have htake : (bytes (inner ++ closed :: rest)).take (width inner) = bytes inner := by
      rw [bytes_append, ← length_bytes, List.take_left]
    rw [between_opened hd h, htake, Mode.after, List.foldl_cons, hd.next_opened]
    exact hinner.mode
  count := by
    have htake : (bytes (inner ++ closed :: rest)).take (width inner + 1) =
        bytes inner ++ [closed.toUInt8] := by
      rw [bytes_append, bytes_cons, utf8EncodeChar_of_lt hd.closed_lt, ← length_bytes,
        List.take_length_add_append]
      rfl
    have hlast : Mode.code.outside [closed.toUInt8] = [closed.toUInt8] := by simp [Mode.outside]
    have hcount := hinner.count
    rw [Nat.add_assoc start, between_opened hd h, outside_opened hd, htake, Mode.outside_append,
      hinner.mode, hlast, List.count_cons_self, List.count_cons_of_ne hd.opened_ne_closed,
      List.count_append, List.count_append, List.count_singleton_self,
      List.count_cons_of_ne hd.opened_ne_closed.symm, List.count_nil]
    omega

theorem matchingAt?_at (h : At s start (opened :: rest)) :
    matchingAt? opened closed start s =
      (matching? opened closed 1 false rest).map fun p => start + width p.1 + 1 := by
  obtain ⟨front, rfl, rfl⟩ := h
  rw [matchingAt?, cutFrom_width]
  simp only
  rw [matching?_cons, if_neg hd.opened_ne, if_pos rfl, Option.map_map]
  simp only [Function.comp_def, width_cons, utf8Size_of_lt hd.opened_lt]
  congr 1
  funext p
  omega

/-- What is found is the first position that balances. -/
theorem isLeast_of_matchingAt? (h : At s start (opened :: rest)) {j : Nat}
    (hj : matchingAt? opened closed start s = some j) :
    IsLeast {i | Balances opened closed s start i} j ∧ byte? s j = some closed.toUInt8 ∧
      ∀ i, start ≤ i → i < j →
        (Mode.code.outside (between s start (i + 1))).count closed.toUInt8 <
          (Mode.code.outside (between s start (i + 1))).count opened.toUInt8 := by
  rw [matchingAt?_at hd h] at hj
  obtain ⟨⟨inner, tail⟩, hp, rfl⟩ := Option.map_eq_some_iff.1 hj
  have hinner : Shift opened.toUInt8 closed.toUInt8 1 .code (bytes inner) 1 .code :=
    (matching?_searches hd Nat.one_pos false rest).some _ hp
  obtain rfl := eq_of_matching? hp
  have hlt : ∀ i, start ≤ i → i < start + width inner + 1 →
      (Mode.code.outside (between s start (i + 1))).count closed.toUInt8 <
        (Mode.code.outside (between s start (i + 1))).count opened.toUInt8 := by
    intro i hi hij
    obtain ⟨k, rfl⟩ := Nat.exists_eq_add_of_le hi
    refine count_lt_of_deep hd h ?_ hinner.deep ?_
    · rw [bytes_append]
      exact List.prefix_append _ _
    · rw [length_bytes]
      omega
  refine ⟨⟨balances_of_shift hd h hinner, fun i (hi : Balances opened closed s start i) => ?_⟩,
    ?_, hlt⟩
  · by_contra hij
    have := hlt i (Nat.le_of_lt hi.after) (Nat.lt_of_not_le hij)
    rw [hi.count] at this
    exact Nat.lt_irrefl _ this
  · have hclose := (h.cons_ascii hd.opened_lt).append.byte?_cons
    rwa [lead_of_lt hd.closed_lt, Nat.add_right_comm] at hclose

theorem not_balances_of_eq_none (h : At s start (opened :: rest))
    (hnone : matchingAt? opened closed start s = none) (i : Nat) :
    ¬Balances opened closed s start i := by
  intro hi
  rw [matchingAt?_at hd h] at hnone
  have hdeep := (matching?_searches hd Nat.one_pos false rest).none (Option.map_eq_none_iff.1 hnone)
  obtain ⟨k, rfl⟩ := Nat.exists_eq_add_of_lt hi.after
  have hlt := count_lt_of_deep hd h List.prefix_rfl hdeep (k := k + 1) (by
    have hw := h.add_width
    have := hi.inside
    rw [width_cons, utf8Size_of_lt hd.opened_lt] at hw
    rw [length_bytes]
    omega)
  rw [← Nat.add_assoc start, hi.count] at hlt
  exact Nat.lt_irrefl _ hlt

end

/-- **The balancing delimiter is found, and nothing else**: the least position that balances, if
there is one. Before it, more delimiters are opened than closed. -/
theorem matchingAt?_isLeast {opened closed : Char} (hd : Delimiters opened closed) {s : Text}
    {start : Nat} (hs : byte? s start = some opened.toUInt8) :
    (∀ j, matchingAt? opened closed start s = some j ↔
      IsLeast {i | Balances opened closed s start i} j) ∧
    (matchingAt? opened closed start s = none ↔ ∀ i, ¬Balances opened closed s start i) ∧
    ∀ j, matchingAt? opened closed start s = some j → byte? s j = some closed.toUInt8 ∧
      ∀ i, start ≤ i → i < j →
        (Mode.code.outside (between s start (i + 1))).count closed.toUInt8 <
          (Mode.code.outside (between s start (i + 1))).count opened.toUInt8 := by
  obtain ⟨rest, h⟩ := at_of_byte? hd.opened_lt hs
  have hnone := not_balances_of_eq_none hd h
  have hsome {j : Nat} (hj : matchingAt? opened closed start s = some j) :=
    isLeast_of_matchingAt? hd h hj
  refine ⟨fun j => ⟨fun hj => (hsome hj).1, fun hj => ?_⟩, ⟨hnone, fun hall => ?_⟩,
    fun j hj => (hsome hj).2⟩
  · cases hm : matchingAt? opened closed start s with
    | none => exact absurd hj.1 (hnone hm j)
    | some i => rw [(hsome hm).1.unique hj]
  · cases hm : matchingAt? opened closed start s with
    | none => rfl
    | some i => exact absurd (hsome hm).1.1 (hall i)

/-- A list with a list and a literal in it. -/
def nestedList : Text := "x [(\"a]é\"), [b]] y".toList

theorem isLeast_balances_nestedList :
    (Delimiters '[' ']' ∧ byte? nestedList 2 = some '['.toUInt8) ∧
      IsLeast {i | Balances '[' ']' nestedList 2 i} 16 :=
  have hd : Delimiters '[' ']' := ⟨by decide, by decide, by decide, by decide, by decide⟩
  have hs : byte? nestedList 2 = some '['.toUInt8 := by decide
  ⟨⟨hd, hs⟩, ((matchingAt?_isLeast hd hs).1 16).1 (by decide)⟩

example : matchingAt? '(' ')' 0 "(\"a)".toList = none := by decide

end SpecHarvest.Bytes
