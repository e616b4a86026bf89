import SnippetTutor.Export
import SnippetTutor.Lesson.Reader
import SnippetTutor.Proofs.Outcome.Pointwise
import SnippetTutor.Proofs.Trace.Definition
import SnippetTutor.Proofs.Value.Document

/-! # Traces as lessons

The steps of a trace are written in the form in which a lesson holds its steps, and a document
with these steps and the source is accepted as a lesson. The records of that lesson show the
lines and the output of the trace, except that an empty output counts as none.
-/
namespace SnippetTutor
open Outcome

namespace Checked
variable {α β : Type}

/-- Checks that all succeed give the list of what they give. -/
theorem all_zipIdx_eq_ok {xs : List α} (document : α → Json) {check : Json → Checked β} {value : α → β}
    (h : ∀ x ∈ xs, check (document x) = .ok (value x)) (start : Nat) :
    all (((xs.map document).zipIdx start).map fun (j, n) => under (.position n) (check j)) =
      .ok (xs.map value) := by
  induction xs generalizing start with
  | nil => rfl
  | cons x rest ih =>
    have hx := h x List.mem_cons_self
    have hrest := ih (fun y hy => h y (List.mem_cons_of_mem x hy)) (start + 1)
    simp only [List.map_cons, List.zipIdx_cons, all, hrest, hx]
    rfl

end Checked

/-- A key of an object that is written field by field is found by its name. -/
theorem Json.get?_obj (fields : List (String × Json)) (key : String) :
    Fields.get? (fields.map fun f => (f.1.toList, f.2)) key.toList =
      (fields.find? fun f => f.1 == key).map Prod.snd := by
  induction fields with
  | nil => rfl
  | cons field rest ih =>
    rw [List.map_cons, Fields.get?_cons, ih, List.find?_cons]
    by_cases h : field.1 = key
    · simp [h]
    · have hkey : (field.1 == key) = false := beq_eq_false_iff_ne.mpr h
      rw [if_neg (fun hsame => h (String.toList_inj.mp hsame)), hkey]

namespace Lesson
variable {α : Type} {fields : Fields Json} {key : String} {default? : Option α} {check : Json → Checked α}
  {j : Json} {a : α}

theorem checkField_of_get? (h : Fields.get? fields key.toList = some j) (hj : check j = .ok a) :
    checkField fields key default? check = .ok a := by
  unfold checkField
  rw [h]
  dsimp only
  rw [hj]
  rfl

theorem checkField_of_absent (h : Fields.get? fields key.toList = none) :
    checkField fields key (some a) check = .ok a := by
  unfold checkField
  rw [h]
  rfl

/-- A text that may be missing is read as it was written. -/
theorem checkField_optionalText {text : Option Text} (h : Fields.get? fields key.toList = text.map Json.text) :
    checkField fields key (some none) checkOptionalText = .ok text := by
  cases text with
  | none => exact checkField_of_absent h
  | some t => exact checkField_of_get? h rfl

end Lesson

namespace StepRecord
variable {r shown : StepRecord} {lines : List Text}

/-- The hand-written step that a record is written as. -/
def toAuthored (r : StepRecord) : AuthoredStep :=
  ⟨r.lineNumber, r.output, Value.toJsonFields r.memory, r.explanation?⟩

/-- What the document of a record holds under the keys of a hand-written step. -/
theorem exists_toJson_eq (r : StepRecord) : ∃ fields, r.toJson = .object fields ∧
    Fields.get? fields "line".toList = some (.int r.lineNumber) ∧
    Fields.get? fields "output".toList = r.output.map .text ∧
    Fields.get? fields "variables".toList = some (.object (Value.toJsonFields r.memory)) ∧
    Fields.get? fields "explanation".toList = r.explanation?.map .text := by
  refine ⟨_, rfl, ?_, ?_, ?_, ?_⟩
  · rw [Json.get?_obj]
    rfl
  · rw [Json.get?_obj]
    cases r.output <;> cases r.explanation? <;> rfl
  · rw [Json.get?_obj]
    rfl
  · rw [Json.get?_obj]
    cases r.output <;> cases r.explanation? <;> rfl

theorem checkStep_toJson (h : 1 ≤ r.lineNumber) : Lesson.checkStep r.toJson = .ok r.toAuthored := by
  have hnumber : Lesson.checkLine (.int r.lineNumber) = .ok r.lineNumber := by
    rw [Lesson.checkLine]
    exact bind_eq_ok.mpr ⟨r.lineNumber, rfl, if_pos h⟩
  have hmemory : Lesson.checkVariables (.object (Value.toJsonFields r.memory)) =
      .ok (Value.toJsonFields r.memory) := rfl
  obtain ⟨fields, hfields, hline, houtput, hvariables, hexplanation⟩ := exists_toJson_eq r
  rw [hfields, Lesson.checkStep, Lesson.checkField_of_get? hline hnumber, Lesson.checkField_optionalText houtput,
    Lesson.checkField_of_get? hvariables hmemory, Lesson.checkField_optionalText hexplanation]
  rfl

/-- What the record of a hand-written step keeps of the record that the step was written from. -/
structure Replays (shown r : StepRecord) : Prop where
  lineNumber : shown.lineNumber = r.lineNumber
  source : shown.source = r.source
  output : shown.output = r.output.filter (!·.isEmpty)

theorem exists_toRecord (h : lines[(r.lineNumber - 1).toNat]? = some r.source) (index : Nat) :
    ∃ shown, r.toAuthored.toRecord index lines = .ok shown ∧ shown.Replays r := by
  obtain ⟨memory, hmemory⟩ := Value.exists_ofJsonFields r.memory
  refine ⟨_, bind_eq_ok.mpr ⟨memory, hmemory, rfl⟩, rfl, ?_, rfl⟩
  change (lines[(r.lineNumber - 1).toNat]?).getD [] = r.source
  rw [h, Option.getD_some]

end StepRecord

namespace Trace
variable {config : Config} {source : Text} {lines : List Text} {T : Trace} {r : StepRecord}

/-- The lesson that a source and its trace make. -/
def toLesson (source : Text) (T : Trace) : Lesson := ⟨source, some (T.records.map StepRecord.toAuthored)⟩

/-- The document of a lesson with a source and the written steps of its trace. -/
def lessonDocument (source : Text) (T : Trace) : Json :=
  .obj [("initialCode", .text source), ("steps", .array (T.records.map StepRecord.toJson))]

theorem check_lessonDocument (h : ofSource config source = .ok T) :
    Lesson.check (T.lessonDocument source) = .ok (T.toLesson source) := by
  have hall := Checked.all_zipIdx_eq_ok StepRecord.toJson
    (fun r hr => StepRecord.checkStep_toJson (line_of_record h hr).1) 0
  have hsteps : Lesson.checkSteps (.array (T.records.map StepRecord.toJson)) =
      .ok (some (T.records.map StepRecord.toAuthored)) := by
    rw [Lesson.checkSteps, hall]
    rfl
  have hcode : Lesson.checkText (.text source) = .ok source := rfl
  obtain ⟨fields, hfields, hkey, hgetcode, hgetsteps⟩ : ∃ fields, T.lessonDocument source = .object fields ∧
      Lesson.codeKey fields = "initialCode" ∧
      Fields.get? fields "initialCode".toList = some (.text source) ∧
      Fields.get? fields "steps".toList = some (.array (T.records.map StepRecord.toJson)) := by
    refine ⟨_, rfl, ?_, Json.get?_obj _ "initialCode", Json.get?_obj _ "steps"⟩
    rw [Lesson.codeKey, Fields.has, List.map_cons, List.any_cons, beq_self_eq_true, Bool.true_or, if_pos rfl]
  rw [hfields, Lesson.check, hkey, Lesson.checkField_of_get? hgetcode hcode,
    Lesson.checkField_of_get? hgetsteps hsteps]
  rfl

/-- The records of the lesson are those of the trace, but for what a lesson does not hold. -/
theorem exists_records_toLesson (h : ofSource config source = .ok T) :
    ∃ records, (T.toLesson source).records = .ok records ∧ List.Forall₂ StepRecord.Replays records T.records := by
  have hshown : ∀ x ∈ T.records.zipIdx, ∃ shown,
      x.1.toAuthored.toRecord x.2 (Text.lines source) = .ok shown ∧ shown.Replays x.1 := by
    intro x hx
    have hline := (line_of_record h (List.fst_mem_of_mem_zipIdx hx)).2
    exact StepRecord.exists_toRecord hline x.2
  obtain ⟨records, hrecords, hreplays⟩ := exists_mapM hshown
  refine ⟨records, ?_, ?_⟩
  · rw [Lesson.records, toLesson, Option.getD_some, List.zipIdx_map, List.mapM_map]
    exact hrecords
  · rw [← List.forall₂_map_right_iff, List.zipIdx_map_fst] at hreplays
    exact hreplays

end Trace

end SnippetTutor
