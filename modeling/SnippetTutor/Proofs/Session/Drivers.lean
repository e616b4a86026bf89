import SnippetTutor.Proofs.Session.Course

/-! # The three ways of running a source

A source may be run as a whole, by steps taken by hand, or in a session that is stepped
and run to its end. All three make the same records and end with the same output and
memory, wherever the session stood when it was told to run.
That a session comes to its end is said for a stack without bounds (`Fault`).
-/
namespace SnippetTutor.Session
open Outcome

variable {config : Config} {source : Text} {s : Session} {actions : List Action}

/-- Running to the end from anywhere is running a fresh session to the end. -/
theorem reduce_runAll_of_perform (ha : ∀ a ∈ actions, a.keepsSource = true)
    (hs : (ofSource config source).perform actions = .ok s) :
    s.reduce .runAll = (ofSource config source).reduce .runAll :=
  reduce_runAll_congr (perform_restart ha hs)

theorem reduce_runAll_ofSource (config : Config) (source : Text) :
    (∃ t, (ofSource config source).reduce .runAll = .ok t ∧ t.phase = .completed ∧
      Follows (Run.ofLines config (Text.lines source)) t) ∨
    ∃ fault, (ofSource config source).reduce .runAll = .error (.fault fault) ∧
      (Run.ofLines config (Text.lines source)).ending = .error fault := by
  have hfresh := follows_ofSource config source
  have hbound : (ofSource config source).lines.length + 1 ≤
      (ofSource config source).cursor + (ofSource config source).stepBound := Nat.le_add_left _ _
  rcases hfresh.stepUntilCompleted hbound with ⟨t, ht, hp, hf⟩ | ⟨fault, ht, hr⟩
  · exact Or.inl ⟨t, orFault_eq_ok.mpr ht, hp, hf⟩
  · refine Or.inr ⟨fault, ?_, hr⟩
    change orFault (stepUntilCompleted _ (ofSource config source)).result = _
    rw [ht]
    rfl

theorem Follows.shows_trace {T : Trace} (hT : Trace.ofSource config source = .ok T)
    (hp : s.phase = .completed) (h : Follows (Run.ofLines config (Text.lines source)) s) :
    s.history = T.records ∧ s.memory = T.memory ∧ s.machine.output = T.output ∧
      s.position = T.records.length := by
  obtain ⟨last, hr, -, ho⟩ := Trace.ofSource_eq_ok hT
  have hmemory := Trace.memory_eq_lastMemory hT
  obtain ⟨hposition, hending⟩ := h.finished hp
  rw [hr] at hposition hending h
  have hhistory : s.history = T.records := by
    rw [h.history, hposition, List.take_length]
  have hlast : last = s.machine := by
    cases hending
    rfl
  exact ⟨hhistory, by rw [h.memory, hhistory, hmemory], by rw [ho, hlast], hposition⟩

/-- Steps by hand, single steps of a session and its run to the end agree with the whole
run of the source; and where that run meets a fault, so does the session. -/
theorem drivers_agree (config : Config) (source : Text) :
    (∀ T, Trace.ofSource config source = .ok T →
      (∃ last : Machine,
        (∀ records m, Step.Iterates config (Text.lines source) 0 0 .initial records m ↔
          records = T.records ∧ m = last) ∧
        last.output = T.output ∧ last.memory = T.memory) ∧
      (∀ k, ∃ s, (ofSource config source).perform (List.replicate k .step) = .ok s ∧
        s.history = T.records.take k ∧ s.memory = StepRecord.lastMemory (T.records.take k)) ∧
      (∀ actions s, (∀ a ∈ actions, a.keepsSource = true) →
        (ofSource config source).perform actions = .ok s →
        ∃ t, s.reduce .runAll = .ok t ∧ t.phase = .completed ∧ t.history = T.records ∧
          t.memory = T.memory ∧ t.machine.output = T.output ∧ t.position = T.records.length) ∧
      T.memory = StepRecord.lastMemory T.records) ∧
    (∀ fault, Trace.ofSource config source = .error fault →
      ∀ actions s, (∀ a ∈ actions, a.keepsSource = true) →
        (ofSource config source).perform actions = .ok s →
        s.reduce .runAll = .error (.fault fault)) := by
  refine ⟨?_, ?_⟩
  · intro T hT
    obtain ⟨last, hr, -, -⟩ := Trace.ofSource_eq_ok hT
    refine ⟨?_, ?_, ?_, Trace.memory_eq_lastMemory hT⟩
    · obtain ⟨last, hiter, hm, ho⟩ := Trace.iterates_iff hT
      exact ⟨last, hiter, ho.symm, hm.symm⟩
    · intro k
      have hending : (Run.ofLines config (Text.lines source)).ending = .ok last := by rw [hr]
      obtain ⟨s, hs, hf, hk⟩ := (follows_ofSource config source).perform_steps hending k
      have hhistory : s.history = T.records.take k := by
        rw [hr] at hf hk
        rw [hf.history, hk]
        change T.records.take (min (0 + k) T.records.length) = _
        rw [Nat.zero_add]
        exact List.take_eq_take_min.symm
      exact ⟨s, hs, hhistory, by rw [hf.memory, hhistory]⟩
    · intro actions s ha hs
      rw [reduce_runAll_of_perform ha hs]
      rcases reduce_runAll_ofSource config source with ⟨t, ht, hp, hf⟩ | ⟨fault, -, he⟩
      · exact ⟨t, ht, hp, hf.shows_trace hT hp⟩
      · rw [hr] at he
        cases he
  · intro fault hfault actions s ha hs
    have hending := Trace.ofSource_eq_error.mp hfault
    rw [reduce_runAll_of_perform ha hs]
    rcases reduce_runAll_ofSource config source with ⟨t, -, hp, hf⟩ | ⟨found, ht, he⟩
    · have hok := (hf.finished hp).2
      rw [hending] at hok
      cases hok
    · rw [hending] at he
      cases he
      exact ht

/-- The definition that this source ends with is completed by its last step, and a
session that has been stepped and reset runs to the same end. -/
theorem drivers_agree_on_open_definition :
    ∃ T t, Trace.ofSource {} "def f():\n print(1)\n#".toList = .ok T ∧
      (ofSource {} "def f():\n print(1)\n#".toList).perform [.step, .reset] = .ok t ∧
      (t.reduce .runAll).map Session.history = .ok T.records ∧
      T.memory = [("f".toList, .function ⟨"f".toList, [], ["print(1)".toList]⟩)] := by
  have hT := Option.eq_some_of_isSome (o := (Trace.ofSource {} "def f():\n print(1)\n#".toList).toOption)
    (by decide +kernel)
  have ht : (ofSource {} "def f():\n print(1)\n#".toList).perform [.step, .reset] =
      .ok (ofSource {} "def f():\n print(1)\n#".toList) := eq_ok_of_toOption (by decide +kernel)
  obtain ⟨-, -, hrun, hmemory⟩ := (drivers_agree {} _).1 _ (eq_ok_of_toOption hT)
  obtain ⟨u, hu, -, hhistory, -⟩ := hrun [.step, .reset] _ (by decide) ht
  refine ⟨_, _, eq_ok_of_toOption hT, ht, ?_, by decide +kernel⟩
  rw [hu, map_ok, hhistory]

end SnippetTutor.Session
