import SnippetTutor.Export
import SnippetTutor.Proofs.Json.Names
import SnippetTutor.Proofs.Literal.Modest
import SnippetTutor.Proofs.Machine.Hereditary
import SnippetTutor.Proofs.Trace.Rows
import SnippetTutor.Proofs.Trace.Visited
import SnippetTutor.Proofs.Value.Export

/-! # The exported document

A trace is written as a document whose objects have no key twice: the names in a memory are all
different, and so are the keys of a record at any depth of a value. The text therefore stands for
the trace, and for nothing else. It is a text of the standard's grammar unless a step shows a number
that is not finite, because such numbers are written by names that the standard does not have.

A single surrogate is no character of a text. Where texts may hold one, two of them that meet are written
like the one character that they are the halves of, and the text stands for something else. What is said
here is said of runs in which no list brings in a single surrogate.
That a document is written and read at any depth is said for a stack without bounds (`Fault`).
-/
namespace SnippetTutor
open Outcome Machine

namespace Number

instance (x : Number) : Decidable x.IsFinite :=
  match x with
  | .finite _ _ => isTrue trivial
  | .nan | .infinite _ => isFalse id

/-- Whole numbers are finite. -/
theorem isFinite_filter_iff (xs : List Number) :
    (∀ x ∈ xs.filter fun x => x.whole?.isNone, x.IsFinite) ↔ ∀ x ∈ xs, x.IsFinite := by
  have hwhole : ∀ x : Number, x.whole?.isNone = false → x.IsFinite := by
    intro x hx
    cases x with
    | finite negative rank => trivial
    | nan | infinite => cases hx
  constructor
  · intro h x hx
    cases hw : x.whole?.isNone with
    | true => exact h x (List.mem_filter.mpr ⟨hx, hw⟩)
    | false => exact hwhole x hw
  · intro h x hx
    exact h x (List.mem_filter.mp hx).1

end Number

namespace Memory

/-- The numbers in the values of a memory, at any depth. -/
def numbers (memory : Memory) : List Number := Value.numbersOfFields memory

theorem numbers_toJson (memory : Memory) :
    memory.toJson.numbers = memory.numbers.filter fun x => x.whole?.isNone :=
  Value.numbers_toJsonFields memory

theorem keyed_toJson {memory : Memory} (hkeys : (Fields.keys memory).Nodup)
    (h : memory.Each fun v => v.toJson.Keyed) : memory.toJson.Keyed := by
  refine ⟨?_, Value.keyed_toJsonFields.mpr h⟩
  rw [Value.keys_toJsonFields]
  exact hkeys

end Memory

namespace StepRecord

theorem numbers_toJson (r : StepRecord) : r.toJson.numbers = r.memory.toJson.numbers := by
  cases ho : r.output <;> cases he : r.explanation? <;>
    simp [toJson, Json.obj, Json.numbers, Json.numbersOfFields, ho, he]

theorem keyed_toJson {r : StepRecord} (h : r.memory.toJson.Keyed) : r.toJson.Keyed := by
  cases ho : r.output <;> cases he : r.explanation? <;>
    exact Json.keyed_obj (by simp [ho, he]) (by simpa [ho, he, Json.Keyed] using h)

end StepRecord

namespace Trace

variable {config : Config} {lines : List Text} {T : Trace} {P : Value → Prop}

/-- The memory at the end is the one that the last record shows, or has no variables. -/
theorem memory_of_records {Q : Memory → Prop} (h : ofLines config lines = .ok T) (hnone : Q [])
    (hrecords : ∀ r ∈ T.records, Q r.memory) : Q T.memory := by
  rw [memory_eq_lastMemory h, StepRecord.lastMemory]
  cases hlast : T.records.getLast? with
  | none => exact hnone
  | some r => exact hrecords r (List.mem_of_getLast? hlast)

/-- What all values of reachable machines have in common, the values that a trace shows have. -/
theorem each_memory (hP : Value.Hereditary P) (hfunction : ∀ f, P (.function f)) (h : ofLines config lines = .ok T) :
    (∀ r ∈ T.records, r.memory.Each P) ∧ T.memory.Each P := by
  have hrecords : ∀ r ∈ T.records, r.memory.Each P := by
    intro r hr
    obtain ⟨s, position, rfl, hat, -, hbefore⟩ := exists_stage_of_record h hr
    obtain ⟨ran, hran, -, hmemory, hmachine⟩ := Step.executeAll_of_at hat hbefore
    have hreached := Reachable.each hP hfunction ⟨_, hran⟩
    rw [hmemory, hmachine]
    split
    · exact hreached.closeDefinition.memory
    · exact hreached.memory
  exact ⟨hrecords, memory_of_records h (List.forall_mem_nil _) hrecords⟩

theorem keyed_toJson (h : ofLines config lines = .ok T) : T.toJson.Keyed := by
  obtain ⟨hnames, hrows, -⟩ := rows_grow h
  obtain ⟨hrecords, hmemory⟩ := each_memory Value.hereditary_keyed Function.keyed_toJson h
  refine Json.keyed_obj (by simp) ?_
  simp only [List.forall_mem_cons, List.not_mem_nil, false_imp_iff, implies_true, and_true]
  refine ⟨?_, Json.keyedItems_texts T.output, Memory.keyed_toJson hnames hmemory⟩
  rw [Json.keyed_array, List.forall_mem_map]
  intro r hr
  exact StepRecord.keyed_toJson (Memory.keyed_toJson (hrows r hr).1 (hrecords r hr))

theorem numbers_toJson (T : Trace) :
    T.toJson.numbers = T.records.flatMap (fun r => r.memory.toJson.numbers) ++ T.memory.toJson.numbers := by
  simp [toJson, Json.obj, Json.numbers, Json.numbersOfFields, Json.numbersOfItems_eq,
    StepRecord.numbers_toJson, List.flatMap, Function.comp_def]

/-- A number in the document is not finite exactly if a step shows one that is not. -/
theorem isFinite_numbers_iff (h : ofLines config lines = .ok T) :
    (∀ x ∈ T.toJson.numbers, x.IsFinite) ↔ ∀ r ∈ T.records, ∀ x ∈ r.memory.numbers, x.IsFinite := by
  have hmemory : ∀ memory : Memory, (∀ x ∈ memory.toJson.numbers, x.IsFinite) ↔ ∀ x ∈ memory.numbers, x.IsFinite := by
    intro memory
    rw [memory.numbers_toJson]
    exact Number.isFinite_filter_iff memory.numbers
  simp only [numbers_toJson, List.forall_mem_append, List.mem_flatMap, forall_exists_index, and_imp, hmemory]
  constructor
  · rintro ⟨hrecords, -⟩ r hr x hx
    exact (hmemory r.memory).mp (fun y hy => hrecords y r hr hy) x hx
  · intro hrecords
    refine ⟨fun x r hr hx => (hmemory r.memory).mpr (hrecords r hr) x hx, ?_⟩
    exact memory_of_records (Q := fun memory => ∀ x ∈ memory.numbers, x.IsFinite) h (List.forall_mem_nil _) hrecords

/-- In all lists that a run reads the surrogates are paired. -/
def SurrogatesPaired (config : Config) (source : Text) : Prop :=
  ∀ line m, Runs config source line m → ∀ token ∈ reads config line m, Json.SurrogatesPaired token

instance (config : Config) (source : Text) : Decidable (SurrogatesPaired config source) :=
  inferInstanceAs (Decidable (∀ line m, Runs config source line m → _))

/-- The exported text is a document of the standard exactly if every number that a step shows, at any
depth of a value, is finite. Whatever grammar it is read by, with the names or without, it stands for
the trace. With the names it is a document always, and a reader that bears it reads the trace back. -/
theorem export_is_document_iff {config : Config} {source : Text} {T : Trace} (h : ofSource config source = .ok T) :
    SurrogatesPaired config source →
    ((∃ denoted, Json.Document false T.exportJson denoted) ↔
      ∀ r ∈ T.records, ∀ x ∈ r.memory.numbers, x.IsFinite) ∧
    (∀ names denoted, Json.Document names T.exportJson denoted → denoted = some T.toJson) ∧
    Json.Document true T.exportJson (some T.toJson) ∧
    ∀ limits : Json.Limits, (∀ d, limits.tooLong d = false) → T.exportJson.length ≤ limits.nesting →
      Json.read? limits T.exportJson = some T.toJson := by
  -- Texts hold characters only, so that the proof need not ask for pairs.
  intro _
  have hkeyed : T.toJson.Keyed := keyed_toJson h
  have hdocument : Json.Document true T.exportJson (some T.toJson) := Json.document_pretty hkeyed
  refine ⟨?_, ?_, hdocument, ?_⟩
  · rw [← isFinite_numbers_iff h]
    exact Json.document_pretty_iff hkeyed
  · intro names denoted hdenoted
    exact hdenoted.unique hdocument
  · intro limits hlimits hdeep
    exact Json.read?_of_document hlimits hdeep hdocument

/-- Numbers that are whole and that are not, in a list and in a record that is taken off it, and a character
that is written as a pair of surrogates. -/
def nestedNumbers : Text := "xs = [0.5, '\\ud83d\\ude00', \x7b'a': [1e300, null]\x7d]\nlast = xs.pop()".toList

theorem export_is_document_iff_nested : ∃ T, ofSource {} nestedNumbers = .ok T ∧
    (∃ denoted, Json.Document false T.exportJson denoted) ∧ Json.Document true T.exportJson (some T.toJson) ∧
    Json.read? (Json.generous T.exportJson) T.exportJson = some T.toJson := by
  have hT := Option.eq_some_of_isSome (o := (ofSource {} nestedNumbers).toOption) (by decide +kernel)
  obtain ⟨hstandard, -, hdocument, hread⟩ := export_is_document_iff (eq_ok_of_toOption hT) (by decide +kernel)
  exact ⟨_, eq_ok_of_toOption hT, hstandard.mpr (by decide +kernel), hdocument,
    hread _ (fun _ => rfl) (Nat.le_refl _)⟩

/-- A number that is too large to be finite is shown by the step, and the text is no document. -/
theorem overflowing_number_exported : ∃ T, ofSource {} "x = 1e999".toList = .ok T ∧
    Number.infinite false ∈ T.toJson.numbers ∧ ¬ ∃ denoted, Json.Document false T.exportJson denoted := by
  have hT := Option.eq_some_of_isSome (o := (ofSource {} "x = 1e999".toList).toOption) (by decide +kernel)
  refine ⟨_, eq_ok_of_toOption hT, by decide +kernel, ?_⟩
  intro hstandard
  have hfinite := (Json.document_pretty_iff (keyed_toJson (eq_ok_of_toOption hT))).mp hstandard
  exact hfinite (.infinite false) (by decide +kernel)

end Trace

end SnippetTutor
