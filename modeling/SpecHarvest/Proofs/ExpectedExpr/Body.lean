import SpecHarvest.ExpectedExpr
import SpecHarvest.Proofs.Json.Compare
import SpecHarvest.Proofs.Source.Literal
import SpecHarvest.Proofs.Text.Occurrence

/-!
# Expected bodies

* `Expected.sound_of_parse?`: what holds of every expectation that a text states.
* `quasi t` and `literal raw`: texts that are a body literal and nothing else. `body?_quasi` and
  `body?_literal` give the body that each denotes.
* `Expected.parse?_eq`: the expectation that such a text states, with the record of match attributes
  that it may hold.
-/

namespace SpecHarvest

open Text Source Json

/-! ## What bodies are -/

theorem Json.sound_of_parseRelaxed {s : Text} {v : Value} (h : parseRelaxed s = .ok v) :
    v.Sound ∧ v.depth ≤ maxDepth := by
  unfold parseRelaxed at h
  simp only at h
  split at h
  · obtain rfl := Except.ok.inj h
    exact ⟨.null, Nat.zero_le _⟩
  · split at h
    · next w hw =>
      obtain rfl := Except.ok.inj h
      rcases Option.or_eq_some_iff.1 hw with hw | ⟨-, hw⟩
      · exact Value.sound_of_parse? hw
      rcases Option.or_eq_some_iff.1 hw with hw | ⟨-, hw⟩
      · exact Value.sound_of_parse? hw
      · exact Value.sound_of_parse? hw
    · cases h

namespace ExpectedExpr

theorem sound_of_body? {s : Text} {body : Option Value} (h : body? s = some body) :
    ∀ v ∈ body, v.Sound ∧ v.depth ≤ maxDepth := by
  unfold body? at h
  split at h
  · split at h
    · next w hw =>
      obtain rfl := Option.some.inj h
      rintro v ⟨⟩
      exact sound_of_parseRelaxed hw
    · cases h
  · split at h
    · obtain ⟨q, -, rfl⟩ := Option.map_eq_some_iff.1 h
      rintro v ⟨⟩
      cases hp : Value.parse? (unescape q.1) with
      | some v => exact Value.sound_of_parse? hp
      | none => exact ⟨.string _, Nat.zero_le _⟩
    · obtain rfl := Option.some.inj h
      intro v hv
      cases hv

theorem bounds_of_status? {n k : Nat} (h : status? n = some k) : 100 ≤ k ∧ k ≤ 599 := by
  unfold status? at h
  split at h
  · next hn =>
    obtain rfl := Option.some.inj h
    exact hn
  · cases h

theorem bounds_of_statusOf? {block : Text} {k : Nat} (h : statusOf? block = some k) :
    100 ≤ k ∧ k ≤ 599 := by
  unfold statusOf? at h
  split at h
  · obtain ⟨q, -, hq⟩ := Option.bind_eq_some_iff.1 h
    exact bounds_of_status? hq
  · obtain rfl := Option.some.inj h
    decide

/-- The expectation of a text that has a body, given the record of match attributes it may hold. -/
def expectation? (body : Option Value) : Option Text → Option Expected
  | none => some { Expected.ofStatus defaultStatus with body := body }
  | some block => (statusOf? block).map fun status => {
      status := status
      body := body
      bodyExact := true
      headers := (matchersOf block).exact
      headersAbsent := (matchersOf block).absent
      headersContain := (matchersOf block).contain }

end ExpectedExpr

open ExpectedExpr

/-- An expectation is a bare status, or else a body with a record. -/
theorem Expected.parse?_eq (s : Text) : Expected.parse? s =
    if !(trim s).isEmpty && (trim s).all Char.isDigit then
      (natural? (trim s)).bind fun (n, _) => (status? n).map .ofStatus
    else (body? (trim s)).bind fun body => expectation? body (attributes? (trim s)) := by
  unfold Expected.parse?
  dsimp only
  split
  · cases natural? (trim s) with
    | none => rfl
    | some q => exact (Option.map_eq_bind ..).symm
  · refine congrArg _ (funext fun body => ?_)
    cases attributes? (trim s) with
    | none => rfl
    | some block => exact (Option.map_eq_bind ..).symm

theorem expectation?_eq_some {body : Option Value} {record : Option Text} {e : Expected}
    (h : expectation? body record = some e) :
    e.body = body ∧ e.bodyExact = true ∧ 100 ≤ e.status ∧ e.status ≤ 599 := by
  cases record with
  | none =>
    obtain rfl := Option.some.inj h
    have hdefault : 100 ≤ defaultStatus ∧ defaultStatus ≤ 599 := by decide
    exact ⟨rfl, rfl, hdefault⟩
  | some block =>
    obtain ⟨k, hk, rfl⟩ := Option.map_eq_some_iff.1 h
    exact ⟨rfl, rfl, bounds_of_statusOf? hk⟩

/-- **An expectation that a text states** has a status from 100 to 599 and a body that JSON can
hold. -/
theorem Expected.sound_of_parse? {s : Text} {e : Expected} (h : Expected.parse? s = some e) :
    (100 ≤ e.status ∧ e.status ≤ 599) ∧ ∀ v ∈ e.body, v.Sound ∧ v.depth ≤ maxDepth := by
  rw [Expected.parse?_eq] at h
  split at h
  · obtain ⟨q, -, hq⟩ := Option.bind_eq_some_iff.1 h
    obtain ⟨k, hk, rfl⟩ := Option.map_eq_some_iff.1 hq
    exact ⟨bounds_of_status? hk, by simp [Expected.ofStatus]⟩
  · obtain ⟨body, hbody, he⟩ := Option.bind_eq_some_iff.1 h
    obtain ⟨hb, -, hs⟩ := expectation?_eq_some he
    rw [hb]
    exact ⟨hs, sound_of_body? hbody⟩

/-! ## Texts that are a body literal -/

/-- A quasi-literal. -/
def quasi (content : Text) : Text := quasiOpen ++ (content ++ quasiClose)

/-- A string literal, from what it holds. -/
def literal (raw : Text) : Text := '"' :: (raw ++ ['"'])

theorem trim_quasi (content : Text) : trim (quasi content) = quasi content := by
  have hopen : quasiOpen = '[' :: "json|".toList := by decide
  have hclose : quasiClose = ['|'] ++ [']'] := by decide
  have hshape : quasi content = '[' :: (("json|".toList ++ content ++ ['|']) ++ [']']) := by
    rw [quasi, hopen, hclose]
    simp only [List.cons_append, List.append_assoc]
  rw [hshape, trim_cons_append_singleton (by decide) (by decide)]

theorem trim_literal (raw : Text) : trim (literal raw) = literal raw :=
  trim_cons_append_singleton (by decide) (by decide) raw

/-- No quasi-literal opens in a text without brackets before it. -/
theorem quasiContent?_append_left {x : Text} (hx : '[' ∉ x) (s : Text) :
    quasiContent? (x ++ s) = quasiContent? s := by
  have hopen : quasiOpen = '[' :: "json|".toList := by decide
  have hne : ∀ c ∈ x, '[' ≠ c := by
    rintro c hc rfl
    exact hx hc
  rw [quasiContent?, quasiContent?, hopen, cut?_append_of_forall hne]
  cases cut? ('[' :: "json|".toList) s <;> rfl

/-- And none is opened or closed by a text without bars and brackets behind it. -/
theorem quasiContent?_append_right {y : Text} (hbar : '|' ∉ y) (hbracket : ']' ∉ y) (s : Text) :
    quasiContent? (s ++ y) = quasiContent? s := by
  have hopen : quasiOpen = "[json".toList ++ ['|'] := by decide
  have hclose : quasiClose = ['|'] ++ [']'] := by decide
  rw [quasiContent?, quasiContent?, hopen, cut?_append_of_not_mem hbar]
  cases cut? ("[json".toList ++ ['|']) s with
  | none => rfl
  | some p =>
    simp only [Option.map_some, Option.bind_eq_bind, Option.bind_some, hclose,
      cut?_append_of_not_mem hbracket]
    cases cut? (['|'] ++ [']']) p.2 <;> rfl

theorem contains_cons_eq_false {lit : Text} {c : Char} {s : Text}
    (h : contains lit (c :: s) = false) : after? lit (c :: s) = none ∧ contains lit s = false := by
  unfold contains at h
  rw [cut?] at h
  cases ha : after? lit (c :: s) with
  | some r => simp [ha] at h
  | none =>
    rw [ha, Option.isSome_map] at h
    exact ⟨rfl, h⟩

/-- A quasi-literal ends at the first place where it can. -/
theorem cut?_quasiClose {content : Text} (h : contains quasiClose content = false) (rest : Text) :
    cut? quasiClose (content ++ (quasiClose ++ rest)) = some (content, rest) := by
  induction content with
  | nil => exact cut?_append_self (by decide) rest
  | cons c s ih =>
    obtain ⟨hnone, hs⟩ := contains_cons_eq_false h
    have hafter : after? quasiClose (c :: (s ++ (quasiClose ++ rest))) = none := by
      rw [Option.eq_none_iff_forall_ne_some] at hnone ⊢
      intro r hr
      have heq : c :: (s ++ (quasiClose ++ rest)) = '|' :: ']' :: r := after?_eq_some_iff.1 hr
      obtain ⟨rfl, htail⟩ := List.cons.inj heq
      cases s with
      | nil => cases htail
      | cons d s =>
        obtain ⟨rfl, -⟩ := List.cons.inj htail
        exact hnone s (after?_eq_some_iff.2 rfl)
    rw [List.cons_append, cut?, hafter, ih hs]
    rfl

theorem quasiContent?_quasi_append {content : Text} (h : contains quasiClose content = false)
    (rest : Text) : quasiContent? (quasi content ++ rest) = some (trim content) := by
  rw [quasiContent?, quasi, List.append_assoc, cut?_append_self (by decide), List.append_assoc]
  simp [cut?_quasiClose h]

theorem quasiContent?_quasi {content : Text} (h : contains quasiClose content = false) :
    quasiContent? (quasi content) = some (trim content) := by
  simpa using quasiContent?_quasi_append h []

theorem parseRelaxed_compact {v : Value} (h : v.Regular) (hd : v.depth ≤ maxDepth) :
    parseRelaxed v.compact = .ok v := by
  have hempty : v.compact.isEmpty = false := by simpa using v.compact_ne_nil
  have hparse : Value.parse? v.compact = some v := by rw [Value.parse?_compact h, if_pos hd]
  simp [parseRelaxed, Value.trim_compact h, hempty, hparse]

namespace ExpectedExpr

/-- **The body of a quasi-literal** that holds the compact text of a value is the value, whatever
follows it. -/
theorem body?_quasi_append {v : Value} (h : v.Regular) (hd : v.depth ≤ maxDepth)
    (hc : contains quasiClose v.compact = false) (rest : Text) :
    body? (quasi v.compact ++ rest) = some (some v) := by
  rw [body?, quasiContent?_quasi_append hc, Value.trim_compact h]
  simp only [parseRelaxed_compact h hd]

theorem body?_quasi {v : Value} (h : v.Regular) (hd : v.depth ≤ maxDepth)
    (hc : contains quasiClose v.compact = false) :
    body? (quasi v.compact) = some (some v) := by
  simpa using body?_quasi_append h hd hc []

/-- A quasi-literal is looked for first. -/
theorem body?_eq_some_iff_of_quasiContent? {s content : Text} {body : Option Value}
    (h : quasiContent? s = some content) :
    body? s = some body ↔ ∃ v, parseRelaxed content = .ok v ∧ body = some v := by
  simp only [body?, h]
  cases parseRelaxed content <;> simp [eq_comm]

/-- **The body of a string literal** is the JSON that it denotes, or else the string. -/
theorem body?_literal {raw : Text} (h : Raw raw) (hq : quasiContent? (literal raw) = none) :
    body? (literal raw) =
      some (some ((Value.parse? (unescape raw)).getD (.string (unescape raw)))) := by
  have hquoted : quoted? (literal raw) = some (raw, []) := h.quoted? []
  rw [body?, hq, hquoted]
  rfl

end ExpectedExpr

theorem all_isDigit_quasi (content : Text) : (quasi content).all Char.isDigit = false := rfl

theorem all_isDigit_literal (raw : Text) : (literal raw).all Char.isDigit = false := rfl

/-- A text that is neither blank at its ends nor a bare status. -/
theorem Expected.parse?_of_trim {s : Text} (ht : trim s = s) (hd : s.all Char.isDigit = false) :
    Expected.parse? s = (body? s).bind fun body => expectation? body (attributes? s) := by
  rw [Expected.parse?_eq, ht, hd, Bool.and_false, if_neg (by decide)]

end SpecHarvest
