import SpecHarvest.Proofs.Json.Relaxed
import SpecHarvest.Proofs.Text.Occurrence
import SpecHarvest.Source.Keyword

/-!
# Bare keys

The scan that puts bare keys into quotes takes any text, JSON or not. It copies a string that is
not closed to the end of the text, and it knows of what it has passed only the last character that
is no white space.

* `BareKey front name rest`: between `front` and `rest` stands a bare key, told by the text alone.
  `bareKey_iff` tells it as the scan sees it, by `KeyAfter`.
* `scan_induction`: what may stand at the front of a text, and what the scan goes on with.
* `exists_divides`: the scan divides a text into parts (`Piece`) that it keeps and identifiers that
  it puts into quotes, and these are just the keys of the text. `Divides.cons_kept` and
  `Divides.cons_key` add a part at the front; `divides_unclosed` is the end of a text in a string.
* `quoteKeysAfter_idem`: what is scanned has no bare keys left.
* `quoteBareKeys_pieces`: so quotes are put around bare keys and nowhere else, JSON is left alone,
  and a second time nothing happens.
-/

namespace SpecHarvest.Json

open Text Source

/-! ## What a bare key is -/

/-- A text of whole literals and characters that are no quotes: no literal is open after it. -/
inductive Outside : Text → Prop
  | nil : Outside []
  | char {c : Char} {s : Text} : c ≠ '"' → Outside s → Outside (c :: s)
  | literal {raw s : Text} : Raw raw → Outside s → Outside ('"' :: (raw ++ '"' :: s))

/-- The last character that is no ASCII white space. -/
def lastSignificant (s : Text) : Option Char := (s.filter (!isKeySpace ·)).getLast?

/-- A whole identifier outside literals, after a brace or a comma and before a colon. -/
structure BareKey (front name rest : Text) : Prop where
  outside : Outside front
  name : isName name = true
  start : startsHere front.getLast? = true
  stop : endsHere isIdentChar rest = true
  previous : lastSignificant front = some '{' ∨ lastSignificant front = some ','
  next : (trimStart rest).head? = some ':'

/-- A bare key of a text before which `last` is the last character that is not white space. -/
structure KeyAfter (last : Option Char) (front name rest : Text) : Prop where
  outside : Outside front
  name : isName name = true
  stop : endsHere isIdentChar rest = true
  previous : opensKey ((lastSignificant front).or last) = true
  next : startsWith [':'] (trimStart rest) = true

section

variable {last last' : Option Char} {c : Char} {front name rest raw s x : Text}

theorem outside_cons_iff (hc : c ≠ '"') : Outside (c :: s) ↔ Outside s := by
  refine ⟨fun h => ?_, .char hc⟩
  cases h with
  | char _ h => exact h
  | literal => exact absurd rfl hc

theorem outside_append_iff (hx : '"' ∉ x) : Outside (x ++ s) ↔ Outside s := by
  induction x with
  | nil => rfl
  | cons c x ih =>
    rw [List.mem_cons, not_or] at hx
    rw [List.cons_append, outside_cons_iff (Ne.symm hx.1), ih hx.2]

/-- A literal that opens in a text after which none is open is closed in it. -/
theorem Outside.exists_literal (h : Outside ('"' :: s)) :
    ∃ raw t, s = raw ++ '"' :: t ∧ Raw raw ∧ Outside t := by
  cases h with
  | char hc _ => exact absurd rfl hc
  | literal hraw h => exact ⟨_, _, rfl, hraw, h⟩

theorem outside_literal_iff (hraw : Raw raw) : Outside ('"' :: (raw ++ '"' :: s)) ↔ Outside s := by
  refine ⟨fun h => ?_, .literal hraw⟩
  obtain ⟨raw', t, heq, hraw', ht⟩ := h.exists_literal
  obtain ⟨-, rfl⟩ := hraw.append_inj hraw' heq
  exact ht

theorem lastSignificant_append (x s : Text) :
    lastSignificant (x ++ s) = (lastSignificant s).or (lastSignificant x) := by
  rw [lastSignificant, List.filter_append, List.getLast?_append]
  rfl

theorem lastSignificant_concat (x : Text) (c : Char) :
    lastSignificant (x ++ [c]) = if isKeySpace c then lastSignificant x else some c := by
  cases hc : isKeySpace c <;> simp [lastSignificant, hc]

theorem isKeySpace_of_isIdentChar (h : isIdentChar c = true) : isKeySpace c = false := by
  rw [Bool.eq_false_iff]
  intro hs
  simp only [isKeySpace, Bool.or_eq_true, beq_iff_eq] at hs
  rcases hs with (((rfl | rfl) | rfl) | rfl) | rfl <;> revert h <;> decide

/-- The text before a key does not end with a character of an identifier. -/
theorem startsHere_of_previous (h : opensKey (lastSignificant front) = true) :
    startsHere front.getLast? = true := by
  rcases List.eq_nil_or_concat' front with rfl | ⟨f, d, rfl⟩
  · rfl
  · rw [List.getLast?_concat, startsHere, Bool.not_eq_true', Bool.eq_false_iff]
    intro hd
    rw [lastSignificant_concat, isKeySpace_of_isIdentChar hd, if_neg Bool.false_ne_true,
      (quiet_of_isIdentChar hd).2] at h
    cases h

theorem opensKey_iff : opensKey last = true ↔ last = some '{' ∨ last = some ',' := by
  cases last <;> simp [opensKey]

theorem bareKey_iff : BareKey front name rest ↔ KeyAfter none front name rest := by
  constructor
  · rintro ⟨ho, hn, -, hstop, hprev, hnext⟩
    refine ⟨ho, hn, hstop, ?_, startsWith_singleton_iff.2 hnext⟩
    rw [Option.or_none]
    exact opensKey_iff.2 hprev
  · rintro ⟨ho, hn, hstop, hprev, hnext⟩
    rw [Option.or_none] at hprev
    exact ⟨ho, hn, startsHere_of_previous hprev, hstop, opensKey_iff.1 hprev,
      startsWith_singleton_iff.1 hnext⟩

/-! ## The scan -/

/-- **Induction on the scan**, by what stands at the front of the text. After a literal and after an
identifier `after` is a character that no key follows. -/
@[elab_as_elim]
theorem scan_induction {motive : Option Char → Text → Prop} (last : Option Char) (s : Text)
    (nil : ∀ last, motive last [])
    (literal : ∀ last after raw s, Raw raw → opensKey after = false → motive after s →
      motive last ('"' :: (raw ++ '"' :: s)))
    (unclosed : ∀ last s, closeQuote? s = none → motive last ('"' :: s))
    (name : ∀ last after x s, isName x = true → opensKey last = true →
      endsHere isIdentChar s = true → opensKey after = false → motive after s →
      motive last (x ++ s))
    (char : ∀ last c s, c ≠ '"' → (startsName c = false ∨ opensKey last = false) →
      motive (if isKeySpace c then last else some c) s → motive last (c :: s)) :
    motive last s := by
  fun_induction quoteKeysAfter last s with
  | case1 last => exact nil last
  | case2 last s raw rest hclose ih =>
    obtain ⟨hraw, rfl⟩ := closeQuote?_eq_some_iff.1 hclose
    exact literal last _ raw rest hraw (by decide) ih
  | case3 last s hclose => exact unclosed last s hclose
  | case4 last c s _ hkey x rest ih =>
    obtain ⟨hc, hl⟩ := Bool.and_eq_true_iff.1 hkey
    have hx : isName x = true := Bool.and_eq_true_iff.2 ⟨hc, List.all_takeWhile⟩
    have htext : c :: s = x ++ rest := by rw [List.cons_append, List.takeWhile_append_dropWhile]
    have hquiet : opensKey (some c) = false :=
      (quiet_of_isIdentChar (isIdentChar_of_startsName hc)).2
    rw [htext]
    exact name last _ x rest hx hl (endsHere_dropWhile _ _) hquiet ih
  | case5 last c s hq hkey ih =>
    rw [Bool.not_eq_true, Bool.and_eq_false_iff] at hkey
    exact char last c s hq hkey ih

/-! ## Passing a part of the text -/

/-- What the scan knows of a part `x` that it has passed: no literal is open after it, and `last'`
tells whether a key may follow. -/
structure PassedPart (last : Option Char) (x : Text) (last' : Option Char) : Prop where
  outside : ∀ f, Outside (x ++ f) ↔ Outside f
  opens : opensKey ((lastSignificant x).or last) = opensKey last'

theorem PassedPart.previous (h : PassedPart last x last') (f : Text) :
    opensKey ((lastSignificant (x ++ f)).or last) = opensKey ((lastSignificant f).or last') := by
  rw [lastSignificant_append, Option.or_assoc]
  cases lastSignificant f with
  | none => exact h.opens
  | some c => rfl

theorem PassedPart.keyAfter_iff (h : PassedPart last x last') {f : Text} :
    KeyAfter last (x ++ f) name rest ↔ KeyAfter last' f name rest := by
  constructor
  · rintro ⟨ho, hn, hstop, hprev, hnext⟩
    exact ⟨(h.outside f).1 ho, hn, hstop, by rw [← h.previous, hprev], hnext⟩
  · rintro ⟨ho, hn, hstop, hprev, hnext⟩
    exact ⟨(h.outside f).2 ho, hn, hstop, by rw [h.previous, hprev], hnext⟩

theorem passedPart_literal (hraw : Raw raw) : PassedPart last ('"' :: (raw ++ ['"'])) none where
  outside f := by
    have htext : '"' :: (raw ++ ['"']) ++ f = '"' :: (raw ++ '"' :: f) := by simp
    rw [htext, outside_literal_iff hraw]
  opens := by
    have hlast := lastSignificant_concat ('"' :: raw) '"'
    rw [List.cons_append, if_neg (by decide)] at hlast
    rw [hlast]
    rfl

theorem passedPart_char (hc : c ≠ '"') :
    PassedPart last [c] (if isKeySpace c then last else some c) where
  outside f := outside_cons_iff hc
  opens := by
    rw [← List.nil_append [c], lastSignificant_concat]
    cases isKeySpace c <;> rfl

/-- No key follows the characters of an identifier. -/
theorem opensKey_of_forall_isIdentChar (hne : x ≠ []) (hx : ∀ d ∈ x, isIdentChar d = true) :
    opensKey ((lastSignificant x).or last) = false := by
  rcases List.eq_nil_or_concat' x with rfl | ⟨y, d, rfl⟩
  · exact absurd rfl hne
  · have hd := hx d (by simp)
    rw [lastSignificant_concat, isKeySpace_of_isIdentChar hd, if_neg Bool.false_ne_true]
    exact (quiet_of_isIdentChar hd).2

theorem passedPart_name (hne : x ≠ []) (hx : ∀ d ∈ x, isIdentChar d = true)
    (hl : opensKey last' = false) : PassedPart last x last' where
  outside f := outside_append_iff fun hq => (quiet_of_isIdentChar (hx _ hq)).1 rfl
  opens := by rw [opensKey_of_forall_isIdentChar hne hx, hl]

/-! ## Where a key can stand -/

theorem exists_cons_of_isName (h : isName name = true) :
    ∃ c s, name = c :: s ∧ startsName c = true := by
  cases name with
  | nil => cases h
  | cons c s => exact ⟨c, s, rfl, (Bool.and_eq_true_iff.1 h).1⟩

/-- A key in a text that starts with a quote stands after the literal that opens there. -/
theorem KeyAfter.of_quote (h : KeyAfter last front name rest)
    (hs : '"' :: s = front ++ (name ++ rest)) :
    ∃ raw t, Raw raw ∧ front = '"' :: (raw ++ '"' :: t) := by
  cases front with
  | nil =>
    obtain ⟨c, w, rfl, hc⟩ := exists_cons_of_isName h.name
    obtain ⟨rfl, -⟩ := List.cons.inj hs
    exact absurd hc (by decide)
  | cons d f =>
    obtain ⟨rfl, -⟩ := List.cons.inj hs
    obtain ⟨raw, t, rfl, hraw, -⟩ := h.outside.exists_literal
    exact ⟨raw, t, hraw, rfl⟩

theorem KeyAfter.isPrefix_literal (h : KeyAfter last front name rest) (hraw : Raw raw)
    (hs : '"' :: (raw ++ ['"']) ++ s = front ++ (name ++ rest)) :
    '"' :: (raw ++ ['"']) <+: front := by
  have htext : '"' :: (raw ++ ['"']) ++ s = '"' :: (raw ++ '"' :: s) := by simp
  rw [htext] at hs
  obtain ⟨raw', t, hraw', rfl⟩ := h.of_quote hs
  have heq : raw ++ '"' :: s = raw' ++ '"' :: (t ++ (name ++ rest)) := by simpa using hs
  obtain ⟨rfl, -⟩ := hraw.append_inj hraw' heq
  exact ⟨t, by simp⟩

/-- In a text that starts with a character at which no key starts, a key stands after it. -/
theorem KeyAfter.isPrefix_char (h : KeyAfter last front name rest)
    (hc : startsName c = false ∨ opensKey last = false)
    (hs : [c] ++ s = front ++ (name ++ rest)) : [c] <+: front := by
  cases front with
  | nil =>
    obtain ⟨d, w, rfl, hd⟩ := exists_cons_of_isName h.name
    obtain ⟨rfl, -⟩ := List.cons.inj hs
    rcases hc with hc | hc
    · rw [hc] at hd
      cases hd
    · exact absurd h.previous (by simpa [lastSignificant] using hc)
  | cons d f =>
    obtain ⟨rfl, -⟩ := List.cons.inj hs
    exact ⟨f, rfl⟩

/-- In a text that starts with a whole identifier, a key is that identifier or stands after it. -/
theorem KeyAfter.eq_or_isPrefix_name (h : KeyAfter last front name rest)
    (hx : ∀ d ∈ x, isIdentChar d = true) (hend : endsHere isIdentChar s = true)
    (hs : x ++ s = front ++ (name ++ rest)) :
    (front = [] ∧ name = x ∧ rest = s) ∨ x <+: front := by
  rcases List.append_eq_append_iff.1 hs with ⟨a, rfl, -⟩ | ⟨a, rfl, ha⟩
  · exact .inr ⟨a, rfl⟩
  · cases front with
    | nil =>
      obtain ⟨htake, hdrop⟩ :=
        takeWhile_append_of_endsHere (isIdentChar_of_mem_of_isName h.name) h.stop
      rw [ha] at htake hdrop
      obtain ⟨htake', hdrop'⟩ := takeWhile_append_of_endsHere hx hend
      rw [List.nil_append] at htake' hdrop'
      exact .inl ⟨rfl, htake.symm.trans htake', hdrop.symm.trans hdrop'⟩
    | cons d f =>
      -- the part of the identifier before the key would have to end with a brace or a comma
      have hprev := h.previous
      rw [opensKey_of_forall_isIdentChar (List.cons_ne_nil d f)
        fun e he => hx e (List.mem_append_left a he)] at hprev
      cases hprev

end

/-! ## The parts of a text -/

/-- A part of a text: kept as it is, or an identifier put into quotes. -/
inductive Piece
  | kept (s : Text)
  | key (name : Text)

namespace Piece

/-- What stands in the text. -/
def source : Piece → Text
  | kept s => s
  | key name => name

/-- What comes out. -/
def quoted : Piece → Text
  | kept s => s
  | key name => '"' :: (name ++ ['"'])

end Piece

/-- Between `front` and `rest` stands an identifier that is put into quotes. -/
def KeyIn (ps : List Piece) (front name rest : Text) : Prop :=
  ∃ xs ys, ps = xs ++ .key name :: ys ∧ front = xs.flatMap Piece.source ∧
    rest = ys.flatMap Piece.source

section

variable {ps : List Piece} {last last' : Option Char} {c : Char} {front name rest raw s x : Text}

theorem keyIn_nil : ¬KeyIn [] front name rest := by
  rintro ⟨xs, ys, h, -⟩
  simp at h

theorem keyIn_cons {p : Piece} : KeyIn (p :: ps) front name rest ↔
    (p = .key name ∧ front = [] ∧ rest = ps.flatMap Piece.source) ∨
      ∃ f, front = p.source ++ f ∧ KeyIn ps f name rest := by
  constructor
  · rintro ⟨xs, ys, h, rfl, rfl⟩
    cases xs with
    | nil =>
      obtain ⟨rfl, rfl⟩ := List.cons.inj h
      exact .inl ⟨rfl, rfl, rfl⟩
    | cons q xs =>
      obtain ⟨rfl, rfl⟩ := List.cons.inj h
      exact .inr ⟨_, rfl, xs, ys, rfl, rfl, rfl⟩
  · rintro (⟨rfl, rfl, rfl⟩ | ⟨f, rfl, xs, ys, rfl, rfl, rfl⟩)
    · exact ⟨[], ps, rfl, rfl, rfl⟩
    · exact ⟨p :: xs, ys, rfl, rfl, rfl⟩

/-- The parts make up the text `s`, they come out as the scan makes it, and those in quotes are
the keys of the text. -/
structure Divides (last : Option Char) (s : Text) (ps : List Piece) : Prop where
  source : ps.flatMap Piece.source = s
  quoted : ps.flatMap Piece.quoted = quoteKeysAfter last s
  keyIn_iff : ∀ front name rest, KeyIn ps front name rest ↔
    s = front ++ (name ++ rest) ∧ KeyAfter last front name rest

theorem Divides.congr (h : Divides last s ps) (hl : opensKey last = opensKey last') :
    Divides last' s ps where
  source := h.source
  quoted := h.quoted.trans (quoteKeysAfter_congr hl s)
  keyIn_iff front name rest := by
    have hnothing : PassedPart last [] last' := ⟨fun _ => Iff.rfl, hl⟩
    rw [h.keyIn_iff]
    exact and_congr_right fun _ => hnothing.keyAfter_iff

/-- Behind a part that is passed stand the keys of the text behind it. -/
theorem Divides.keyIn_iff_behind (h : Divides last' s ps) (hx : PassedPart last x last')
    {f : Text} : KeyIn ps f name rest ↔
      x ++ s = x ++ f ++ (name ++ rest) ∧ KeyAfter last (x ++ f) name rest := by
  rw [h.keyIn_iff, hx.keyAfter_iff, List.append_assoc, List.append_cancel_left_eq]

/-- A part that the scan passes and in which no key starts is kept. -/
theorem Divides.cons_kept (h : Divides last' s ps) (hx : PassedPart last x last')
    (hkey : ∀ {front name rest}, KeyAfter last front name rest →
      x ++ s = front ++ (name ++ rest) → x <+: front)
    (hscan : quoteKeysAfter last (x ++ s) = x ++ quoteKeysAfter last' s) :
    Divides last (x ++ s) (.kept x :: ps) where
  source := congrArg (x ++ ·) h.source
  quoted := (congrArg (x ++ ·) h.quoted).trans hscan.symm
  keyIn_iff front name rest := by
    rw [keyIn_cons]
    constructor
    · rintro (⟨heq, -⟩ | ⟨f, rfl, hf⟩)
      · cases heq
      · exact (h.keyIn_iff_behind hx).1 hf
    · rintro ⟨hs, hafter⟩
      obtain ⟨f, rfl⟩ := hkey hafter hs
      exact .inr ⟨f, rfl, (h.keyIn_iff_behind hx).2 ⟨hs, hafter⟩⟩

/-- An identifier that is a key is put into quotes. -/
theorem Divides.cons_key (h : Divides last' s ps) (hx : PassedPart last x last')
    (hname : KeyAfter last [] x s)
    (hscan : quoteKeysAfter last (x ++ s) = '"' :: (x ++ ['"']) ++ quoteKeysAfter last' s) :
    Divides last (x ++ s) (.key x :: ps) where
  source := congrArg (x ++ ·) h.source
  quoted := (congrArg ('"' :: (x ++ ['"']) ++ ·) h.quoted).trans hscan.symm
  keyIn_iff front name rest := by
    rw [keyIn_cons]
    constructor
    · rintro (⟨heq, rfl, rfl⟩ | ⟨f, rfl, hf⟩)
      · obtain rfl := Piece.key.inj heq
        rw [h.source]
        exact ⟨rfl, hname⟩
      · exact (h.keyIn_iff_behind hx).1 hf
    · rintro ⟨hs, hafter⟩
      have hident := isIdentChar_of_mem_of_isName hname.name
      rcases hafter.eq_or_isPrefix_name hident hname.stop hs with ⟨rfl, rfl, rfl⟩ | ⟨f, rfl⟩
      · exact .inl ⟨rfl, rfl, h.source.symm⟩
      · exact .inr ⟨f, rfl, (h.keyIn_iff_behind hx).2 ⟨hs, hafter⟩⟩

/-- A whole identifier where a key may stand is put into quotes or kept, as a colon follows it or
not. -/
theorem Divides.exists_cons_name (h : Divides none s ps) (hx : isName x = true)
    (hend : endsHere isIdentChar s = true) (hl : opensKey last = true) :
    ∃ ps', Divides last (x ++ s) ps' := by
  have hident := isIdentChar_of_mem_of_isName hx
  obtain ⟨c, w, rfl, -⟩ := exists_cons_of_isName hx
  have hpassed : PassedPart last (c :: w) none := passedPart_name (List.cons_ne_nil c w) hident rfl
  have hscan := quoteKeysAfter_name hx hl hend
  cases hcolon : startsWith [':'] (trimStart s) with
  | true =>
    rw [hcolon, if_pos rfl] at hscan
    have hkey : KeyAfter last [] (c :: w) s := ⟨.nil, hx, hend, hl, hcolon⟩
    exact ⟨_, h.cons_key hpassed hkey hscan⟩
  | false =>
    rw [hcolon, if_neg Bool.false_ne_true] at hscan
    refine ⟨_, h.cons_kept hpassed (fun hkey hs => ?_) hscan⟩
    rcases hkey.eq_or_isPrefix_name hident hend hs with ⟨-, -, rfl⟩ | hprefix
    · exact absurd hkey.next (by rw [hcolon]; exact Bool.false_ne_true)
    · exact hprefix

theorem divides_nil : Divides last [] [] := by
  refine ⟨rfl, quoteKeysAfter_nil.symm, fun front name rest => ⟨fun h => (keyIn_nil h).elim, ?_⟩⟩
  rintro ⟨hs, h⟩
  obtain ⟨c, w, rfl, -⟩ := exists_cons_of_isName h.name
  simp at hs

/-- A string that is not closed is kept to its end. -/
theorem divides_unclosed (hclose : closeQuote? s = none) :
    Divides last ('"' :: s) [.kept ('"' :: s)] := by
  refine ⟨by simp [Piece.source], ?_, fun front name rest => ?_⟩
  · rw [quoteKeysAfter_unclosed hclose]
    simp [Piece.quoted]
  · rw [keyIn_cons]
    constructor
    · rintro (⟨heq, -⟩ | ⟨f, -, h⟩)
      · cases heq
      · exact (keyIn_nil h).elim
    · -- the string would be closed before a key
      rintro ⟨hs, h⟩
      obtain ⟨raw, t, hraw, rfl⟩ := h.of_quote hs
      have heq : s = raw ++ '"' :: (t ++ (name ++ rest)) := by simpa using hs
      rw [heq, hraw.closeQuote?] at hclose
      cases hclose

/-- **The scan divides every text** into parts that it keeps and keys that it puts into quotes. -/
theorem exists_divides (last : Option Char) (s : Text) : ∃ ps, Divides last s ps := by
  induction last, s using scan_induction with
  | nil last => exact ⟨[], divides_nil⟩
  | literal last after raw s hraw hafter ih =>
    obtain ⟨ps, hps⟩ := ih
    have htext : ∀ x, '"' :: (raw ++ '"' :: x) = '"' :: (raw ++ ['"']) ++ x := by simp
    have hnone : Divides none s ps := hps.congr hafter
    rw [htext]
    refine ⟨_, hnone.cons_kept (passedPart_literal hraw) (fun h => h.isPrefix_literal hraw) ?_⟩
    rw [← htext, ← htext, quoteKeysAfter_string hraw]
  | unclosed last s hclose => exact ⟨_, divides_unclosed hclose⟩
  | name last after x s hx hl hend hafter ih =>
    obtain ⟨ps, hps⟩ := ih
    have hnone : Divides none s ps := hps.congr hafter
    exact hnone.exists_cons_name hx hend hl
  | char last c s hq hkey ih =>
    obtain ⟨ps, hps⟩ := ih
    exact ⟨_, hps.cons_kept (passedPart_char hq) (fun h => h.isPrefix_char hkey)
      (quoteKeysAfter_plain hq hkey)⟩

end

/-! ## A second scan -/

section

variable {last : Option Char} {s t x : Text}

/-- Where no key may stand, the scan keeps the first character. -/
theorem head?_quoteKeysAfter (hl : opensKey last = false) (s : Text) :
    (quoteKeysAfter last s).head? = s.head? := by
  cases s with
  | nil => rw [quoteKeysAfter_nil]
  | cons c s =>
    by_cases hq : c = '"'
    · rw [quoteKeysAfter, if_pos hq]
      split
      · rw [hq]
        rfl
      · rfl
    · rw [quoteKeysAfter_plain hq (.inr hl)]
      rfl

/-- Where no key may stand, the scan keeps the first character that is not white space. -/
theorem head?_trimStart_quoteKeysAfter (hl : opensKey last = false) (s : Text) :
    (trimStart (quoteKeysAfter last s)).head? = (trimStart s).head? := by
  induction s generalizing last with
  | nil => rw [quoteKeysAfter_nil]
  | cons c s ih =>
    cases hc : isBlank c with
    | true =>
      obtain ⟨hq, hquiet⟩ := quiet_of_class (by decide) hc
      rw [quoteKeysAfter_plain hq (.inr hl), trimStart, trimStart, List.dropWhile_cons_of_pos hc,
        List.dropWhile_cons_of_pos hc]
      refine ih ?_
      split
      · exact hl
      · exact hquiet
    | false =>
      obtain ⟨t, ht⟩ := List.head?_eq_some_iff.1 (head?_quoteKeysAfter hl (c :: s))
      rw [ht, trimStart_cons_of_not_blank hc, trimStart_cons_of_not_blank hc]
      rfl

theorem raw_of_forall_isIdentChar (hx : ∀ d ∈ x, isIdentChar d = true) : Raw x := by
  induction x with
  | nil => exact .nil
  | cons d x ih =>
    rw [List.forall_mem_cons] at hx
    have hb : d ≠ '\\' := by
      rintro rfl
      exact absurd hx.1 (by decide)
    exact .plain (quiet_of_isIdentChar hx.1).1 hb (ih hx.2)

/-- **What is scanned has no bare keys left.** -/
theorem quoteKeysAfter_idem (last : Option Char) (s : Text) :
    quoteKeysAfter last (quoteKeysAfter last s) = quoteKeysAfter last s := by
  induction last, s using scan_induction with
  | nil last => rw [quoteKeysAfter_nil, quoteKeysAfter_nil]
  | literal last after raw s hraw hafter ih =>
    rw [quoteKeysAfter_of_not_opens hafter, quoteKeysAfter_of_not_opens hafter] at ih
    rw [quoteKeysAfter_string hraw, quoteKeysAfter_string hraw, ih]
  | unclosed last s hclose => rw [quoteKeysAfter_unclosed hclose, quoteKeysAfter_unclosed hclose]
  | name last after x s hx hl hend hafter ih =>
    rw [quoteKeysAfter_of_not_opens hafter, quoteKeysAfter_of_not_opens hafter] at ih
    rw [quoteKeysAfter_name hx hl hend]
    cases hcolon : startsWith [':'] (trimStart s) with
    | true =>
      have hraw := raw_of_forall_isIdentChar (isIdentChar_of_mem_of_isName hx)
      rw [if_pos rfl, List.cons_append, List.append_assoc, List.singleton_append,
        quoteKeysAfter_string hraw, ih]
    | false =>
      -- a second look at the identifier finds the same end and, again, no colon
      have hend' : endsHere isIdentChar (quoteKeysAfter none s) = true := by
        rw [endsHere_congr (head?_quoteKeysAfter rfl s), hend]
      have hcolon' : startsWith [':'] (trimStart (quoteKeysAfter none s)) = false := by
        rw [Bool.eq_false_iff, ne_eq, startsWith_singleton_iff, head?_trimStart_quoteKeysAfter rfl,
          ← startsWith_singleton_iff, hcolon]
        exact Bool.false_ne_true
      rw [if_neg Bool.false_ne_true, quoteKeysAfter_name hx hl hend', hcolon',
        if_neg Bool.false_ne_true, ih]
  | char last c s hq hkey ih =>
    rw [quoteKeysAfter_plain hq hkey, quoteKeysAfter_plain hq hkey, ih]

end

/-- **Quoting keys only adds quotes.** Every text is divided into parts that are kept and
identifiers that are put into quotes; those are just its bare keys. Of JSON nothing is changed, and
what is quoted once is not quoted again. -/
theorem quoteBareKeys_pieces (s : Text) :
    (∃ ps : List Piece, ps.flatMap Piece.source = s ∧
      ps.flatMap Piece.quoted = quoteBareKeys s ∧
      ∀ front name rest, KeyIn ps front name rest ↔
        s = front ++ (name ++ rest) ∧ BareKey front name rest) ∧
    (∀ t, Tree.parse? s = some t → quoteBareKeys s = s) ∧
    quoteBareKeys (quoteBareKeys s) = quoteBareKeys s := by
  obtain ⟨ps, hps⟩ := exists_divides none s
  refine ⟨⟨ps, hps.source, hps.quoted, fun front name rest => ?_⟩,
    fun t => Tree.quoteBareKeys_of_parse?, quoteKeysAfter_idem none s⟩
  rw [hps.keyIn_iff, bareKey_iff]

example : quoteBareKeys "\x7bid: 1, a b: \"\x7bc: ".toList =
    "\x7b\"id\": 1, a b: \"\x7bc: ".toList := by
  cbv

/-- JSON with a string in which a bare key seems to stand. -/
def keyInString : Text := "\x7b\"msg\" : \"\x7ba: 1\x7d\"\x7d".toList

theorem quoteBareKeys_pieces_keyInString :
    ∃ t, Tree.parse? keyInString = some t ∧ quoteBareKeys keyInString = keyInString := by
  have hparse : Tree.parse? keyInString =
      some (.object [("msg".toList, .string "\x7ba: 1\x7d".toList)]) := rfl
  exact ⟨_, hparse, (quoteBareKeys_pieces keyInString).2.1 _ hparse⟩

end SpecHarvest.Json
