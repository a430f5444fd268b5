import SpecHarvest.ConfigMap
import SpecHarvest.Proofs.Text.Occurrence

/-!
# The configuration of a spec file

A spec file is to run under the configuration of the first spec whose name contains the stem of the
file, or the stem without the word `Spec` at its end. What the look-up takes off is the first `Spec`
of the stem, wherever it stands.

* `shortStem stem`: the stem without the word at its end, unless nothing is left of it.
* `FirstWith p m config`: the configuration of the first name in a map that satisfies `p`, or else
  the default. `firstWith_configFor` says what the look-up looks for.
* `exists_replicate_of_append_comm`: a text that may stand before a word as well as after it is that
  word over and over.
* `firstWith_names_iff`: the stems for which the look-up does, in every map, what it is to do.
-/

namespace SpecHarvest.ConfigMap

open Text

/-- The stem of a file without the word `Spec` at its end, unless nothing is left of it. -/
def shortStem (stem : Text) : Text :=
  ((before? "Spec".toList stem).filter (!·.isEmpty)).getD stem

/-- Whether the name of a spec is one of the names that a stem stands for. -/
def Names (stem name : Text) : Prop := stem <:+: name ∨ shortStem stem <:+: name

/-- The configuration of the first name in a map that satisfies a predicate, or else the default. -/
inductive FirstWith (p : Text → Prop) : ConfigMap → Text → Prop
  | here {name config : Text} {m : ConfigMap} : p name → FirstWith p ((name, config) :: m) config
  | there {name config config' : Text} {m : ConfigMap} : ¬p name → FirstWith p m config →
    FirstWith p ((name, config') :: m) config
  | missing : FirstWith p [] defaultConfig

variable {stem : Text}

/-! ## What the look-up looks for -/

/-- The look-up takes the first name that contains the stem, or the stem without its first
`Spec`. -/
theorem firstWith_configFor (m : ConfigMap) (stem : Text) :
    FirstWith (fun name => stem <:+: name ∨ removeFirst "Spec".toList stem <:+: name) m
      (configFor m stem) := by
  simp only [configFor, ← contains_iff, ← Bool.or_eq_true]
  induction m with
  | nil => exact .missing
  | cons e m ih =>
    obtain ⟨name, config⟩ := e
    rw [List.find?_cons]
    split
    · next hname => exact .here hname
    · next hname => exact .there (Bool.eq_false_iff.1 hname) ih

theorem configFor_removeFirst (config stem : Text) :
    configFor [(removeFirst "Spec".toList stem, config)] stem = config := by
  have hself : contains (removeFirst "Spec".toList stem) (removeFirst "Spec".toList stem) = true :=
    contains_iff.2 List.infix_rfl
  simp only [configFor]
  rw [List.find?_cons_of_pos (by rw [hself, Bool.or_true])]
  rfl

theorem firstWith_singleton_iff {p : Text → Prop} {name config : Text}
    (h : config ≠ defaultConfig) : FirstWith p [(name, config)] config ↔ p name := by
  constructor
  · intro hf
    cases hf with
    | here hp => exact hp
    | there _ hf =>
      cases hf
      exact absurd rfl h
  · exact .here

/-! ## Taking the word off -/

/-- A text that may stand before a word as well as after it, when the first character of the word is
nowhere else in it, is that word over and over. -/
theorem exists_replicate_of_append_comm {d : Char} {w r : Text} (hd : d ∉ w)
    (h : (d :: w) ++ r = r ++ (d :: w)) : ∃ n, r = (List.replicate n (d :: w)).flatten := by
  induction hr : r.length using Nat.strongRecOn generalizing r with
  | ind k ih =>
    rcases List.append_eq_append_iff.1 h with ⟨a, hra, hr'⟩ | ⟨b, hwb, hwb'⟩
    · have hcomm : (d :: w) ++ a = a ++ (d :: w) := hra.symm.trans hr'
      have hlen : a.length < k := by
        rw [← hr, hra, List.length_append, List.length_cons]
        omega
      obtain ⟨n, hn⟩ := ih a.length hlen hcomm rfl
      exact ⟨n + 1, by rw [hra, hn, List.replicate_succ, List.flatten_cons]⟩
    · cases b with
      | nil => exact ⟨1, by simpa using hwb.symm⟩
      | cons e b =>
        cases r with
        | nil => exact ⟨0, rfl⟩
        | cons c r =>
          -- the word would go on with its first character
          obtain ⟨rfl, -⟩ := List.cons.inj hwb
          obtain ⟨-, hw⟩ := List.cons.inj hwb'
          exact absurd (by rw [hw]; simp) hd

theorem removeFirst_of_cut? {lit s front rest : Text} (h : cut? lit s = some (front, rest)) :
    removeFirst lit s = front ++ rest := by
  rw [removeFirst, h]

theorem removeFirst_of_none {lit s : Text} (h : cut? lit s = none) : removeFirst lit s = s := by
  rw [removeFirst, h]

/-- Either the word is taken off the end of a stem, or the stem stays as it is. -/
theorem shortStem_cases (stem : Text) :
    (stem = shortStem stem ++ "Spec".toList ∧ shortStem stem ≠ []) ∨ shortStem stem = stem := by
  unfold shortStem
  cases hb : before? "Spec".toList stem with
  | none => exact .inr rfl
  | some front =>
    cases front with
    | nil => exact .inr rfl
    | cons c front => exact .inl ⟨before?_eq_some_iff.1 hb, List.cons_ne_nil c front⟩

theorem shortStem_append {front : Text} (h : front ≠ []) :
    shortStem (front ++ "Spec".toList) = front := by
  have hb : before? "Spec".toList (front ++ "Spec".toList) = some front :=
    before?_eq_some_iff.2 rfl
  rw [shortStem, hb, Option.filter_some, if_pos (by simpa using h), Option.getD_some]

theorem length_of_cut? {lit s front rest : Text} (h : cut? lit s = some (front, rest)) :
    s.length = (front ++ rest).length + lit.length := by
  rw [eq_of_cut? h]
  simp only [List.length_append]
  omega

/-- A stem without the word stays as it is. -/
theorem shortStem_of_none (h : cut? "Spec".toList stem = none) : shortStem stem = stem := by
  rcases shortStem_cases stem with ⟨hend, -⟩ | hsame
  · have hin : "Spec".toList <:+: stem := ⟨shortStem stem, [], by simpa using hend.symm⟩
    rw [← contains_iff, contains, h] at hin
    cases hin
  · exact hsame

/-- The word that is taken off at the first place is the one at the end just if nothing but the word
follows that place, and something else is left. -/
theorem removeFirst_eq_shortStem_iff : removeFirst "Spec".toList stem = shortStem stem ↔
    stem ≠ "Spec".toList ∧ ∀ front rest, cut? "Spec".toList stem = some (front, rest) →
      ∃ n, rest = (List.replicate n "Spec".toList).flatten := by
  constructor
  · intro h
    refine ⟨fun hs => ?_, fun front rest hc => ?_⟩
    · rw [hs] at h
      exact absurd h (by decide)
    · rw [removeFirst_of_cut? hc] at h
      have hs := eq_of_cut? hc
      rcases shortStem_cases stem with ⟨hend, -⟩ | hsame
      · rw [← h, hs, List.append_assoc, List.append_assoc, List.append_cancel_left_eq] at hend
        exact exists_replicate_of_append_comm (d := 'S') (w := "pec".toList) (by decide) hend
      · have hlen := length_of_cut? hc
        rw [h, hsame] at hlen
        exact absurd hlen (by simp)
  · rintro ⟨hne, hrest⟩
    cases hc : cut? "Spec".toList stem with
    | none => rw [removeFirst_of_none hc, shortStem_of_none hc]
    | some p =>
      obtain ⟨front, rest⟩ := p
      obtain ⟨n, rfl⟩ := hrest front rest hc
      have hs : stem = front ++ (List.replicate n "Spec".toList).flatten ++ "Spec".toList := by
        rw [List.append_assoc, ← List.flatten_concat, ← List.replicate_succ', List.replicate_succ,
          List.flatten_cons, ← List.append_assoc]
        exact eq_of_cut? hc
      have hfront : front ++ (List.replicate n "Spec".toList).flatten ≠ [] := by
        intro hnil
        rw [hnil, List.nil_append] at hs
        exact hne hs
      have hshort := shortStem_append hfront
      rw [← hs] at hshort
      rw [removeFirst_of_cut? hc, hshort]

/-! ## The contract -/

/-- A map whose only name is what the look-up makes of a stem tells whether that is right. -/
theorem removeFirst_eq_shortStem_of_names (h : Names stem (removeFirst "Spec".toList stem)) :
    removeFirst "Spec".toList stem = shortStem stem := by
  cases hc : cut? "Spec".toList stem with
  | none => rw [removeFirst_of_none hc, shortStem_of_none hc]
  | some p =>
    obtain ⟨front, rest⟩ := p
    have hlen := length_of_cut? hc
    rw [removeFirst_of_cut? hc] at h ⊢
    have hstem : ¬stem <:+: front ++ rest := by
      intro hin
      have := hin.length_le
      rw [hlen] at this
      exact absurd this (by simp)
    rcases h with hin | hin
    · exact absurd hin hstem
    · rcases shortStem_cases stem with ⟨hend, -⟩ | hsame
      · have hlen' := congrArg List.length hend
        rw [List.length_append] at hlen'
        exact (hin.eq_of_length (by omega)).symm
      · rw [hsame] at hin
        exact absurd hin hstem

/-- **For which stems the look-up follows its contract**: in every map it takes the first name that
contains the stem, or the stem without the word `Spec` at its end, if and only if the stem is not
that word alone and nothing but the word, over and over, follows the first place where it stands. -/
theorem firstWith_names_iff :
    (∀ m : ConfigMap, FirstWith (Names stem) m (configFor m stem)) ↔
      stem ≠ "Spec".toList ∧ ∀ front rest, cut? "Spec".toList stem = some (front, rest) →
        ∃ n, rest = (List.replicate n "Spec".toList).flatten := by
  rw [← removeFirst_eq_shortStem_iff]
  constructor
  · intro h
    have hfirst := h [(removeFirst "Spec".toList stem, "max-rows".toList)]
    rw [configFor_removeFirst, firstWith_singleton_iff (by decide)] at hfirst
    exact removeFirst_eq_shortStem_of_names hfirst
  · intro h m
    have hfirst := firstWith_configFor m stem
    rwa [h] at hfirst

/-- **The look-up does not always follow its contract**: a stem may hold the word in another place
than its end. -/
theorem not_firstWith_names :
    ¬∀ (m : ConfigMap) (stem : Text), FirstWith (Names stem) m (configFor m stem) := by
  intro h
  have hfirst := h [("Feature.SpecialQuerySpec".toList, "max-rows".toList)] "SpecialSpec".toList
  have hdefault : configFor [("Feature.SpecialQuerySpec".toList, "max-rows".toList)]
      "SpecialSpec".toList = defaultConfig := by decide +kernel
  have hnames : Names "SpecialSpec".toList "Feature.SpecialQuerySpec".toList :=
    .inr (contains_iff.1 (by decide +kernel))
  rw [hdefault] at hfirst
  cases hfirst with
  | there hn _ => exact hn hnames

end SpecHarvest.ConfigMap
