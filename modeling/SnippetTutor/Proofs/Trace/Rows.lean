import SnippetTutor.Proofs.Machine.Targets
import SnippetTutor.Proofs.Trace.Definition

/-! # The rows of the memory table

Every record shows a table of the memory. Along a run a table only gets rows at its end, and
from one record to the next only the rows change that the line between them sets, those of the
definitions that are completed, and those that a call writes back to.
-/
namespace SnippetTutor
open Outcome Machine

namespace Step

variable {config : Config} {lines : List Text} {line name : Text} {index count position : Nat}
  {m n last : Machine} {s : Stage} {stages first rest : List Stage} {P : Machine → Machine → Prop}

theorem keptOrWritten_of_execute (h : execute config line m = .ok n)
    (hname : name ∉ lineTargets config.marker line m) :
    KeptOrWritten config.scope (kindOf config.marker line m) m.memory n.memory name := by
  cases hp : performed? config.marker line m with
  | none => exact Or.inl (by rw [execute_memory_of_not_performed h hp])
  | some p =>
    obtain ⟨shape, start⟩ := p
    rw [kindOf_of_performed hp]
    exact execute_keptOrWritten h hp hname

theorem respects_of_at (hP : Respected config.scope P) (hat : s.At config lines position) :
    P s.before s.step.machine := by
  obtain ⟨ran, hran, -, hmachine, -, -⟩ := visit_eq_ok hat.visit
  have hline := hP.execute hran
  rw [hmachine]
  split
  · exact hP.trans hline (hP.close ran)
  · exact hline

/-- What every statement respects holds from each machine of a run to each later one. -/
theorem Stages.respects (hP : Respected config.scope P) (h : Stages config lines index count m stages last) :
    P m last ∧ (∀ s ∈ stages, P m s.step.machine ∧ P s.step.machine last) ∧
      stages.Pairwise fun s t => P s.step.machine t.step.machine := by
  induction h with
  | @stop index count m =>
    have hsame := hP.refl m
    exact ⟨hsame, by simp, .nil⟩
  | @next index count m last step stages ht _ ih =>
    obtain ⟨hlast, hstages, hpairs⟩ := ih
    obtain ⟨position, -, hat⟩ := at_of_take? ht
    have hstep : P m step.machine := respects_of_at hP hat
    refine ⟨hP.trans hstep hlast, ?_, ?_⟩
    · rw [List.forall_mem_cons]
      refine ⟨⟨hstep, hlast⟩, ?_⟩
      intro s hs
      exact ⟨hP.trans hstep (hstages s hs).1, (hstages s hs).2⟩
    · rw [List.pairwise_cons]
      exact ⟨fun s hs => (hstages s hs).1, hpairs⟩

/-- After each step, the run goes on with the stages that come after it. -/
theorem Stages.later (h : Stages config lines index count m (first ++ s :: rest) last) :
    ∃ count', Stages config lines s.step.next count' s.step.machine rest last := by
  induction first generalizing index count m with
  | nil =>
    cases h with
    | next _ hrest => exact ⟨_, hrest⟩
  | cons earlier first ih =>
    cases h with
    | next _ hrest => exact ih hrest

end Step

namespace Trace

variable {config : Config} {lines : List Text} {T : Trace} {earlier later : List StepRecord} {r : StepRecord}

/-- What a record shows comes of what the record before it shows, by its line and, if it is the
last record, the completion of a definition. -/
theorem exists_execute_of_record (h : ofLines config lines = .ok T) (hrecords : T.records = earlier ++ r :: later) :
    ∃ m n, executeAll config (lines.take (r.lineNumber - 1).toNat) .initial = .ok m ∧
      execute config r.source m = .ok n ∧ r.kind = Step.kindOf config.marker r.source m ∧
      m.memory = StepRecord.lastMemory earlier ∧
      (r.memory = n.memory ∨ later = [] ∧ r.memory = n.closeDefinition.memory) := by
  obtain ⟨stages, last, hstages, hstaged, hexecuted⟩ := exists_executed h
  rw [hrecords] at hstaged
  obtain ⟨first, more, rfl, rfl, hmore⟩ := List.map_eq_append_iff.mp hstaged.symm
  obtain ⟨s, others, rfl, rfl, rfl⟩ := List.map_eq_cons_iff.mp hmore
  obtain ⟨position, hat, hnumber, hbefore⟩ := hexecuted s (by simp)
  obtain ⟨n, hn, hnext, hmachine, hmemory, -⟩ := Step.visit_eq_ok hat.visit
  obtain ⟨-, -, -, hkind⟩ := Step.visit_record hat.visit
  have hposition : (s.step.record.lineNumber - 1).toNat = position := by omega
  refine ⟨s.before, n, ?_, hn, hkind, hstages.memory_before, ?_⟩
  · rw [hposition]
    exact hbefore
  · cases hlast : Step.isLast config.marker (lines.drop (position + 1)) with
    | false =>
      rw [hlast, if_neg Bool.false_ne_true] at hmachine
      exact Or.inl (by rw [hmemory, hmachine])
    | true =>
      obtain ⟨count', hlater⟩ := hstages.later
      rw [← hnext] at hlast
      have hnone := hlater.eq_nil_of_isLast hlast
      rw [hnext] at hlast
      rw [hlast, if_pos rfl] at hmachine
      exact Or.inr ⟨by rw [hnone, List.map_nil], by rw [hmemory, hmachine]⟩

/-- From one record to the next, a row is kept unless the line sets it, the last record has
completed it as a definition, or a call has written back to it. -/
theorem keptOrWritten_of_record (h : ofLines config lines = .ok T) (hrecords : T.records = earlier ++ r :: later) :
    ∃ m n, executeAll config (lines.take (r.lineNumber - 1).toNat) .initial = .ok m ∧
      execute config r.source m = .ok n ∧
      ∀ name, name ∉ lineTargets config.marker r.source m → (later = [] → name ∉ n.openName) →
        KeptOrWritten config.scope r.kind (StepRecord.lastMemory earlier) r.memory name := by
  obtain ⟨m, n, hm, hn, hkind, hmemory, hshown⟩ := exists_execute_of_record h hrecords
  refine ⟨m, n, hm, hn, ?_⟩
  intro name hname hopen
  have hline := Step.keptOrWritten_of_execute hn hname
  rw [hmemory, ← hkind] at hline
  have hlast : Fields.get? r.memory name = Fields.get? n.memory name := by
    rcases hshown with hshown | ⟨hlater, hshown⟩
    · rw [hshown]
    · rw [hshown, get?_closeDefinition (hopen hlater)]
  unfold KeptOrWritten at hline ⊢
  rw [hlast]
  exact hline

/-- Along a run, tables only get rows at their end, and no table has two rows of one name. -/
theorem rows_grow (h : ofLines config lines = .ok T) :
    (Fields.keys T.memory).Nodup ∧
    (∀ r ∈ T.records, (Fields.keys r.memory).Nodup ∧ Fields.keys r.memory <+: Fields.keys T.memory) ∧
    T.records.Pairwise fun r t => Fields.keys r.memory <+: Fields.keys t.memory := by
  obtain ⟨stages, last, hstages, hrecords, hmemory, -⟩ := exists_stages h
  obtain ⟨-, hnames, hpairs⟩ := hstages.respects (respected_names config.scope)
  obtain ⟨hlast, hdistinct, -⟩ := hstages.respects (respected_nodup config.scope)
  have hnil : (Fields.keys Machine.initial.memory).Nodup := List.nodup_nil
  have hshown : ∀ s ∈ stages, s.step.record.memory = s.step.machine.memory := by
    intro s hs
    obtain ⟨position, hat⟩ := hstages.exists_at s hs
    obtain ⟨ran, -, -, -, hrecord, -⟩ := Step.visit_eq_ok hat.visit
    exact hrecord
  rw [hrecords, hmemory]
  refine ⟨hlast hnil, ?_, ?_⟩
  · rw [List.forall_mem_map]
    intro s hs
    rw [hshown s hs]
    exact ⟨(hdistinct s hs).1 hnil, (hnames s hs).2⟩
  · rw [List.pairwise_map]
    refine hpairs.imp_of_mem ?_
    intro s t hs ht hst
    rw [hshown s hs, hshown t ht]
    exact hst

end Trace

/-- The memory table never loses, repeats or reorders a row. The tables of a run are in order
each the beginning of the next, with names that differ from one another. From one record to
the next, and from the machine before any statement to the one after it, a name has its value
or its absence kept unless the line sets it, or a definition of that name is completed; only a
plain call may, where calls write back, give new values to names that are there. -/
theorem memory_table_grows (config : Config) :
    (∀ lines T, Trace.ofLines config lines = .ok T →
      ((Fields.keys T.memory).Nodup ∧
        (∀ r ∈ T.records, (Fields.keys r.memory).Nodup ∧ Fields.keys r.memory <+: Fields.keys T.memory) ∧
        T.records.Pairwise fun r t => Fields.keys r.memory <+: Fields.keys t.memory) ∧
      ∀ earlier r later, T.records = earlier ++ r :: later →
        ∃ m n, executeAll config (lines.take (r.lineNumber - 1).toNat) .initial = .ok m ∧
          execute config r.source m = .ok n ∧
          ∀ name, name ∉ lineTargets config.marker r.source m → (later = [] → name ∉ n.openName) →
            KeptOrWritten config.scope r.kind (StepRecord.lastMemory earlier) r.memory name) ∧
    ∀ line m n, execute config line m = .ok n →
      Fields.keys m.memory <+: Fields.keys n.memory ∧
      ∀ name, name ∉ lineTargets config.marker line m →
        KeptOrWritten config.scope (Step.kindOf config.marker line m) m.memory n.memory name := by
  refine ⟨?_, ?_⟩
  · intro lines T hT
    refine ⟨Trace.rows_grow hT, ?_⟩
    intro earlier r later hrecords
    exact Trace.keptOrWritten_of_record hT hrecords
  · intro line m n h
    refine ⟨(respected_names config.scope).execute h, ?_⟩
    intro name hname
    exact Step.keptOrWritten_of_execute h hname

/-- A source with every way in which a name comes into the table or gets a new value. -/
def tabled : List Text :=
  ["y = 1".toList, "xs = []".toList, "def f(a):".toList, " y = a".toList, " z = a".toList, "f('b')".toList,
    "r = xs.append(y)".toList, "def g():".toList]

/-- The names come in by assignments, a completed definition and the last step, and they keep
their places. A call that runs into a limit half way has still written to its caller. -/
theorem memory_table_grows_tabled : ∃ T n, Trace.ofLines { scope := .writeBack } tabled = .ok T ∧
    (T.records.map fun r => (Fields.keys r.memory).length) = [1, 2, 2, 2, 2, 3, 4, 5] ∧
    (T.records.Pairwise fun r t => Fields.keys r.memory <+: Fields.keys t.memory) ∧
    (Fields.keys T.memory).Nodup ∧ Fields.keys T.memory =
      ["y".toList, "xs".toList, "f".toList, "r".toList, "g".toList] ∧
    execute shallow "f('a')".toList spiralling = .ok n ∧
    Fields.get? n.memory "y".toList ≠ Fields.get? spiralling.memory "y".toList ∧
    KeptOrWritten .writeBack .plainCall spiralling.memory n.memory "y".toList := by
  have hT := Option.eq_some_of_isSome (o := (Trace.ofLines { scope := .writeBack } tabled).toOption)
    (by decide +kernel)
  have hn := Option.eq_some_of_isSome (o := (execute shallow "f('a')".toList spiralling).toOption)
    (by decide +kernel)
  obtain ⟨⟨hdistinct, -, hpairs⟩, -⟩ := (memory_table_grows _).1 _ _ (eq_ok_of_toOption hT)
  obtain ⟨-, hkept⟩ := (memory_table_grows _).2 _ _ _ (eq_ok_of_toOption hn)
  have hkind : Step.kindOf shallow.marker "f('a')".toList spiralling = .plainCall := by decide +kernel
  have hy := hkept "y".toList (by decide +kernel)
  rw [hkind] at hy
  exact ⟨_, _, eq_ok_of_toOption hT, by decide +kernel, hpairs, hdistinct, by decide +kernel,
    eq_ok_of_toOption hn, by decide +kernel, hy⟩

end SnippetTutor
