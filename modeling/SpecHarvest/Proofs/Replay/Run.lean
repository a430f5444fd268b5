import Mathlib.Data.List.Infix
import SpecHarvest.Proofs.Text.Occurrence
import SpecHarvest.Replay.Run

/-!
# What a run reports and sends

A run calls the service and extends the report in one pass. The service may have a memory: it is a
state machine, and a run ends in the state that its calls leave.

* `Replayed` is what happens to one test case, `Replayed.Faithful` what the report has to say of it.
* `Accounts`: a list of these accounts for a part of a run. One step accounts for its test case
  (`exists_accounts_replayTest`), and a loop for all that its steps account for
  (`exists_accounts_foldlM`), which is used for the tests of a document and for the documents.
* `exists_replayed`: so the run reports every test, and its calls are the requests of the tests that
  take part, each once and in their order.
* `sent_replay`: these are the requests that `replay` takes down.
-/

namespace SpecHarvest

open Text Tap

/-- The test cases of documents in their order, each with the file that it is from. -/
def testsOf (docs : List SpecDocument) : List (Text × TestCase) :=
  docs.flatMap fun d => d.tests.map fun t => (d.file, t)

/-- The requests of the tests that take part, as they are sent. -/
def requestsOf (o : ReplayOptions) (tests : List (Text × TestCase)) : List Request :=
  (tests.filter fun x => !o.skipsTest (nested x.2.description)).map fun x => x.2.request.toWire

/-- What happens to a test case: the answer to its request, if that is sent, and the result. -/
structure Replayed where
  file : Text
  test : TestCase
  answer : Option Answer
  entry : Entry

/-- The result has the name of the test, and tells whether the test is left out by the options, and
if not whether the answer is what the test expects. -/
structure Replayed.Faithful (o : ReplayOptions) (x : Replayed) : Prop where
  description : x.entry.description =
    x.file ++ " > ".toList ++ " > ".toList.intercalate x.test.description
  skip : x.entry.isSkip = true ↔
    ∃ p ∈ o.skipTests, p <:+: " > ".toList.intercalate x.test.description
  sent : x.answer.isSome = true ↔ x.entry.isSkip = false
  pass : x.entry.isPass = true ↔
    ∃ r, x.answer = some (.ok r) ∧ mismatches r x.test.expected = []
  fail : x.entry.isFail = true ↔
    ∃ a, x.answer = some a ∧ ∀ r, a = .ok r → mismatches r x.test.expected ≠ []

/-! ## One test case -/

theorem testName_eq (file : Text) (t : TestCase) :
    testName file t = file ++ " > ".toList ++ " > ".toList.intercalate t.description := by
  simp [testName, nested, List.intercalate]

theorem skipsTest_iff {o : ReplayOptions} {t : TestCase} :
    o.skipsTest (nested t.description) = true ↔
      ∃ p ∈ o.skipTests, p <:+: " > ".toList.intercalate t.description := by
  simp only [ReplayOptions.skipsTest, List.any_eq_true, contains_iff, nested]

/-- **A result is judged** by whether there is a response with no mismatch. -/
theorem judge_cases (name : Text) (sent : Request) (e : Expected) (a : Answer) :
    (judge name sent e a = .ok name ∧ ∃ r, a = .ok r ∧ mismatches r e = []) ∨
    ((∃ diagnostics, judge name sent e a = .notOk name diagnostics) ∧
      ∀ r, a = .ok r → mismatches r e ≠ []) := by
  cases a with
  | error reason =>
    right
    refine ⟨⟨_, rfl⟩, ?_⟩
    intro r hr
    cases hr
  | ok response =>
    cases hm : mismatches response e with
    | nil =>
      left
      exact ⟨by simp [judge, hm], response, rfl, hm⟩
    | cons m ms =>
      right
      refine ⟨⟨_, by rw [judge, hm]⟩, ?_⟩
      intro r hr
      cases hr
      rw [hm]
      exact List.cons_ne_nil m ms

theorem faithful_of_skipsTest {o : ReplayOptions} {file : Text} {t : TestCase}
    (h : o.skipsTest (nested t.description) = true) :
    Replayed.Faithful o ⟨file, t, none, .skip (testName file t)⟩ where
  description := testName_eq file t
  skip := iff_of_true rfl (skipsTest_iff.1 h)
  sent := by simp [Entry.isSkip]
  pass := by simp [Entry.isPass]
  fail := by simp [Entry.isFail]

theorem faithful_of_sent {o : ReplayOptions} {file : Text} {t : TestCase} (a : Answer)
    (h : ¬o.skipsTest (nested t.description) = true) :
    Replayed.Faithful o
      ⟨file, t, some a, judge (testName file t) t.request.toWire t.expected a⟩ := by
  rw [skipsTest_iff] at h
  rcases judge_cases (testName file t) t.request.toWire t.expected a with
    ⟨he, r, rfl, hm⟩ | ⟨⟨diagnostics, he⟩, hm⟩
  · rw [he]
    refine ⟨testName_eq file t, iff_of_false Bool.false_ne_true h, by simp [Entry.isSkip],
      iff_of_true rfl ⟨r, rfl, hm⟩, iff_of_false Bool.false_ne_true ?_⟩
    intro hf
    obtain ⟨a, ha, hf⟩ := hf
    cases ha
    exact hf r rfl hm
  · rw [he]
    refine ⟨testName_eq file t, iff_of_false Bool.false_ne_true h, by simp [Entry.isSkip],
      iff_of_false Bool.false_ne_true ?_, iff_of_true rfl ⟨a, rfl, hm⟩⟩
    intro hp
    obtain ⟨r, hr, hn⟩ := hp
    exact hm r (Option.some.inj hr) hn

/-! ## Parts of a run -/

section

variable {σ : Type} {service : Request → StateM σ Answer} {o : ReplayOptions}

/-- A list accounts for the tests of a part of a run: it has them in their order, with faithful
results, and its answers are those of the service when it gets the requests of these tests. -/
structure Accounts (service : Request → StateM σ Answer) (o : ReplayOptions)
    (tests : List (Text × TestCase)) (s : σ) (log : List Replayed) (s' : σ) : Prop where
  tests_eq : log.map (fun x => (x.file, x.test)) = tests
  faithful : ∀ x ∈ log, x.Faithful o
  calls : ((requestsOf o tests).mapM service).run s = (log.filterMap (·.answer), s')

theorem run_bind_of_run {α β : Type} {x : StateM σ α} {f : α → StateM σ β} {s s' : σ} {a : α}
    (h : x.run s = (a, s')) : (x >>= f).run s = (f a).run s' := by
  rw [StateT.run_bind, h]
  rfl

theorem Accounts.nil (s : σ) : Accounts service o [] s [] s := ⟨rfl, by simp, rfl⟩

theorem requestsOf_append (o : ReplayOptions) (xs ys : List (Text × TestCase)) :
    requestsOf o (xs ++ ys) = requestsOf o xs ++ requestsOf o ys := by
  simp [requestsOf]

theorem Accounts.append {xs ys : List (Text × TestCase)} {s s' s'' : σ}
    {log log' : List Replayed} (h : Accounts service o xs s log s')
    (h' : Accounts service o ys s' log' s'') :
    Accounts service o (xs ++ ys) s (log ++ log') s'' where
  tests_eq := by rw [List.map_append, h.tests_eq, h'.tests_eq]
  faithful := by
    intro x hx
    rcases List.mem_append.1 hx with hx | hx
    · exact h.faithful x hx
    · exact h'.faithful x hx
  calls := by
    rw [requestsOf_append, List.mapM_append, List.filterMap_append, run_bind_of_run h.calls,
      run_bind_of_run h'.calls]
    rfl

/-- **One step** accounts for its test case. -/
theorem exists_accounts_replayTest (file : Text) (report : List Entry) (t : TestCase) (s : σ) :
    ∃ log s', (replayTest service o file report t).run s = (report ++ log.map (·.entry), s') ∧
      Accounts service o [(file, t)] s log s' := by
  by_cases h : o.skipsTest (nested t.description) = true
  · refine ⟨[⟨file, t, none, .skip (testName file t)⟩], s, ?_, rfl, ?_, ?_⟩
    · rw [replayTest, if_pos h]
      rfl
    · simpa using faithful_of_skipsTest h
    · simp [requestsOf, h]
      rfl
  · cases ha : (service t.request.toWire).run s with
    | mk a s' =>
      refine ⟨[⟨file, t, some a, judge (testName file t) t.request.toWire t.expected a⟩], s', ?_,
        rfl, ?_, ?_⟩
      · rw [replayTest, if_neg h, run_bind_of_run ha]
        rfl
      · simpa using faithful_of_sent a h
      · simp [requestsOf, h, ha]
        rfl

/-- **A loop** accounts for the tests that its steps account for. -/
theorem exists_accounts_foldlM {α : Type} {act : List Entry → α → StateM σ (List Entry)}
    {tests : α → List (Text × TestCase)}
    (h : ∀ report x s, ∃ log s', (act report x).run s = (report ++ log.map (·.entry), s') ∧
      Accounts service o (tests x) s log s') (xs : List α) (report : List Entry) (s : σ) :
    ∃ log s', (xs.foldlM act report).run s = (report ++ log.map (·.entry), s') ∧
      Accounts service o (xs.flatMap tests) s log s' := by
  induction xs generalizing report s with
  | nil =>
    refine ⟨[], s, ?_, .nil s⟩
    simp
    rfl
  | cons x xs ih =>
    obtain ⟨log, s', hx, hlog⟩ := h report x s
    obtain ⟨log', s'', hxs, hlog'⟩ := ih (report ++ log.map (·.entry)) s'
    refine ⟨log ++ log', s'', ?_, ?_⟩
    · rw [List.foldlM_cons, run_bind_of_run hx, hxs, List.map_append, List.append_assoc]
    · rw [List.flatMap_cons]
      exact hlog.append hlog'

/-- **A run** accounts for the tests of its documents. -/
theorem exists_accounts_replayAll (service : Request → StateM σ Answer) (o : ReplayOptions)
    (report : List Entry) (docs : List SpecDocument) (s : σ) :
    ∃ log s', (replayAll service o report docs).run s = (report ++ log.map (·.entry), s') ∧
      Accounts service o (testsOf docs) s log s' := by
  apply exists_accounts_foldlM
  intro report d s
  have hflat : d.tests.map (fun t => (d.file, t)) = d.tests.flatMap fun t => [(d.file, t)] := by
    rw [List.map_eq_flatMap]
  rw [hflat]
  exact exists_accounts_foldlM (exists_accounts_replayTest d.file) d.tests report s

end

/-! ## Whole runs -/

/-- Every result is counted once. -/
theorem summary_add (es : List Entry) :
    (summary es).pass + (summary es).fail + (summary es).skip = es.length := by
  induction es with
  | nil => rfl
  | cons e es ih =>
    simp only [summary, List.countP_cons, List.length_cons] at ih ⊢
    cases e <;> simp only [Entry.isPass, Entry.isFail, Entry.isSkip, Bool.false_eq_true, if_true,
      if_false] <;> omega

/-- **A run reports every test faithfully**, whatever the service remembers. The report gets one
entry a test case, in the order of the documents and their tests. An entry has the name of its test;
it says that the test is left out if a text to be skipped lies in the description, that it passed if
the answer to its request has no mismatch, and that it failed otherwise. The service ends in the
state in which the requests of the tests that take part leave it, each sent once and in their order,
and the answers are those it gives to them. -/
theorem exists_replayed {σ : Type} (service : Request → StateM σ Answer) (o : ReplayOptions)
    (report : List Entry) (docs : List SpecDocument) (s : σ) :
    ∃ (log : List Replayed) (s' : σ),
      (replayAll service o report docs).run s = (report ++ log.map (·.entry), s') ∧
      log.map (fun x => (x.file, x.test)) = testsOf docs ∧
      (∀ x ∈ log, x.Faithful o) ∧
      ((requestsOf o (testsOf docs)).mapM service).run s = (log.filterMap (·.answer), s') ∧
      (summary (log.map (·.entry))).pass + (summary (log.map (·.entry))).fail +
        (summary (log.map (·.entry))).skip = (testsOf docs).length := by
  obtain ⟨log, s', hrun, hlog⟩ := exists_accounts_replayAll service o report docs s
  refine ⟨log, s', hrun, hlog.tests_eq, hlog.faithful, hlog.calls, ?_⟩
  rw [summary_add, ← hlog.tests_eq, List.length_map, List.length_map]

theorem run_mapM_noting (service : Service) (rs sent : List Request) :
    (rs.mapM service.noting).run sent = (rs.map service, sent ++ rs) := by
  induction rs generalizing sent with
  | nil => simp; rfl
  | cons r rs ih =>
    have hr : (service.noting r).run sent = (service r, sent ++ [r]) := rfl
    rw [List.mapM_cons, run_bind_of_run hr, run_bind_of_run (ih (sent ++ [r])), List.append_assoc]
    rfl

/-- **The requests that a run takes down** are those of the tests that take part. -/
theorem sent_replay (service : Service) (o : ReplayOptions) (docs : List SpecDocument) :
    (replay service o docs).sent = requestsOf o (testsOf docs) := by
  obtain ⟨log, sent, hrun, hlog⟩ := exists_accounts_replayAll service.noting o [] docs []
  have hcalls := hlog.calls
  rw [run_mapM_noting, List.nil_append] at hcalls
  rw [replay, hrun]
  exact (Prod.mk.inj hcalls).2.symm

end SpecHarvest
