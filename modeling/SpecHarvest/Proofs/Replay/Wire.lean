import SpecHarvest.Proofs.Text.Collapse
import SpecHarvest.Replay.Wire

/-!
# Requests in the form that is sent

* `normalizePath_eq`: a path as it is sent is the path with each number sign encoded, after a slash
  if it has none.
* `Request.IsCanonical`: a request that can be sent as it is. `Request.toWire` makes every request
  canonical (`Request.isCanonical_toWire`) and leaves alone just those that are
  (`Request.toWire_eq_self_iff`).
* `Request.toWire_canonical`: so each part of what is sent is told by the request, and to make it
  ready a second time changes nothing.
-/

namespace SpecHarvest

open Text Http

/-! ## A character replaced by a text -/

namespace Text

variable {d : Char} {w s : Text}

theorem replaceChar_cons (c : Char) (s : Text) :
    replaceChar d w (c :: s) = (if c = d then w else [c]) ++ replaceChar d w s := by
  rw [replaceChar, List.flatMap_cons, replaceChar]

theorem not_mem_replaceChar (hw : d ∉ w) (s : Text) : d ∉ replaceChar d w s := by
  induction s with
  | nil => exact List.not_mem_nil
  | cons c s ih =>
    rw [replaceChar_cons, List.mem_append, not_or]
    refine ⟨?_, ih⟩
    split
    · exact hw
    · next hc => simpa using Ne.symm hc

theorem replaceChar_of_not_mem (h : d ∉ s) : replaceChar d w s = s := by
  induction s with
  | nil => rfl
  | cons c s ih =>
    rw [List.mem_cons, not_or] at h
    rw [replaceChar_cons, if_neg (Ne.symm h.1), ih h.2, List.singleton_append]

/-- What stands between the places where the character was is kept. -/
theorem replaceChar_eq_intercalate (d : Char) (w s : Text) :
    replaceChar d w s = w.intercalate (pieces (· == d) s) := by
  induction s with
  | nil => simp [replaceChar, pieces]
  | cons c s ih =>
    obtain ⟨p, ps, hp⟩ := exists_pieces_eq_cons (· == d) s
    rw [hp] at ih
    rw [replaceChar_cons, ih]
    by_cases hc : c = d
    · simp [pieces, hc, hp, List.intercalate_cons_cons]
    · cases ps <;> simp [pieces, hc, hp, List.intercalate_cons_cons]

end Text

/-! ## Paths -/

theorem normalizePath_of_head {p : Text} (h : p.head? = some '/') :
    normalizePath p = replaceChar '#' "%23".toList p := by
  obtain ⟨s, rfl⟩ := List.head?_eq_some_iff.1 h
  rfl

theorem normalizePath_of_not_head {p : Text} (h : p.head? ≠ some '/') :
    normalizePath p = '/' :: replaceChar '#' "%23".toList p := by
  unfold normalizePath
  split
  · next s hs =>
    -- a text that starts with a slash once it is encoded starts with one before
    refine absurd ?_ h
    cases p with
    | nil => cases hs
    | cons c p =>
      rw [replaceChar_cons] at hs
      split at hs
      · cases hs
      · rw [(List.cons.inj hs).1]
        rfl
  · rfl

/-- **A path as it is sent.** -/
theorem normalizePath_eq (p : Text) : normalizePath p =
    (if p.head? = some '/' then [] else ['/']) ++
      "%23".toList.intercalate (pieces (· == '#') p) := by
  rw [← replaceChar_eq_intercalate]
  split
  · next h => exact normalizePath_of_head h
  · next h => exact normalizePath_of_not_head h

example : normalizePath "items?select=a#b".toList = "/items?select=a%23b".toList := by decide

theorem head?_normalizePath (p : Text) : (normalizePath p).head? = some '/' := by
  unfold normalizePath
  split <;> rfl

theorem not_mem_normalizePath (p : Text) : '#' ∉ normalizePath p := by
  have hencoded : '#' ∉ replaceChar '#' "%23".toList p := not_mem_replaceChar (by decide) p
  by_cases h : p.head? = some '/'
  · rwa [normalizePath_of_head h]
  · rw [normalizePath_of_not_head h, List.mem_cons, not_or]
    exact ⟨by decide, hencoded⟩

/-! ## Requests -/

namespace Http

theorem Method.sendsBody_eq_false_iff {m : Method} :
    m.sendsBody = false ↔ m = .get ∨ m = .head := by
  cases m <;> decide

end Http

theorem declaresContentType_iff {hs : List Header} : declaresContentType hs = true ↔
    ∃ h ∈ hs, lowerAscii h.name = "content-type".toList := by
  have hname : lowerAscii jsonContentType.name = "content-type".toList := by decide
  simp only [declaresContentType, List.any_eq_true, sameIgnoringCase, hname, beq_iff_eq]

namespace Request

/-- A request that can be sent as it is. -/
structure IsCanonical (r : Request) : Prop where
  slash : r.path.head? = some '/'
  encoded : '#' ∉ r.path
  sends : r.body.isSome = true → r.method.sendsBody = true
  declared : r.body.isSome = true → declaresContentType r.headers = true

variable {r : Request}

theorem body_toWire (r : Request) :
    r.toWire.body = if r.method.sendsBody then r.body else none := rfl

theorem headers_toWire (r : Request) : r.toWire.headers =
    if r.toWire.body.isSome && !declaresContentType r.headers then r.headers ++ [jsonContentType]
    else r.headers := rfl

/-- **What is sent is canonical.** -/
theorem isCanonical_toWire (r : Request) : r.toWire.IsCanonical where
  slash := head?_normalizePath r.path
  encoded := not_mem_normalizePath r.path
  sends h := by
    rw [body_toWire] at h
    split at h
    · next hs => exact hs
    · cases h
  declared h := by
    rw [headers_toWire, h, Bool.true_and]
    split
    · next hd =>
      rw [declaresContentType, List.any_append, Bool.or_eq_true]
      exact .inr (by decide)
    · next hd => simpa using hd

theorem IsCanonical.body_toWire (h : r.IsCanonical) : r.toWire.body = r.body := by
  rw [Request.body_toWire]
  split
  · rfl
  · next hs =>
    cases hb : r.body with
    | none => rfl
    | some b => exact absurd (h.sends (by rw [hb]; rfl)) hs

/-- **Nothing else is left alone.** -/
theorem toWire_eq_self_iff : r.toWire = r ↔ r.IsCanonical := by
  constructor
  · intro h
    rw [← h]
    exact isCanonical_toWire r
  · intro h
    have hpath : r.toWire.path = r.path :=
      (normalizePath_of_head h.slash).trans (replaceChar_of_not_mem h.encoded)
    have hheaders : r.toWire.headers = r.headers := by
      rw [headers_toWire, h.body_toWire, if_neg]
      rw [Bool.and_eq_true, Bool.not_eq_true']
      rintro ⟨hb, hd⟩
      rw [h.declared hb] at hd
      cases hd
    calc r.toWire = ⟨r.toWire.method, r.toWire.path, r.toWire.headers, r.toWire.body⟩ := rfl
      _ = ⟨r.method, r.path, r.headers, r.body⟩ := by rw [hpath, hheaders, h.body_toWire]; rfl

/-- **What is sent for a request**: the path starts with a slash and has its number signs encoded,
the method is kept, so is the body unless the method is GET or HEAD, and the headers are followed by
a content type just if there is a body and they have none. Sent again, it stays as it is. -/
theorem toWire_canonical (r : Request) :
    r.toWire.path.head? = some '/' ∧ '#' ∉ r.toWire.path ∧
    r.toWire.path = (if r.path.head? = some '/' then [] else ['/']) ++
      "%23".toList.intercalate (pieces (· == '#') r.path) ∧
    r.toWire.method = r.method ∧
    r.toWire.body = (if r.method = .get ∨ r.method = .head then none else r.body) ∧
    r.toWire.headers = r.headers ++
      (if r.toWire.body.isSome = true ∧ ∀ h ∈ r.headers, lowerAscii h.name ≠ "content-type".toList
        then [Header.of "Content-Type" "application/json"] else []) ∧
    r.toWire.toWire = r.toWire := by
  have hcanonical := isCanonical_toWire r
  refine ⟨hcanonical.slash, hcanonical.encoded, normalizePath_eq r.path, rfl, ?_, ?_,
    toWire_eq_self_iff.2 hcanonical⟩
  · rw [body_toWire]
    split
    · next hs =>
      rw [← Bool.not_eq_false, Method.sendsBody_eq_false_iff] at hs
      rw [if_neg hs]
    · next hs =>
      rw [Bool.not_eq_true, Method.sendsBody_eq_false_iff] at hs
      rw [if_pos hs]
  · have hnone : (∀ h ∈ r.headers, lowerAscii h.name ≠ "content-type".toList) ↔
        declaresContentType r.headers = false := by
      rw [← Bool.not_eq_true, declaresContentType_iff]
      simp
    rw [headers_toWire]
    simp only [hnone, Bool.and_eq_true, Bool.not_eq_true']
    split
    · rfl
    · rw [List.append_nil]

end Request

end SpecHarvest
