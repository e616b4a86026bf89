import SnippetTutor.Narration.Template
import SnippetTutor.Proofs.Outcome.Pointwise
import SnippetTutor.Proofs.Trace.Definition

/-! # Which traces the templates explain

A template takes the parts of a line apart as the kind of the record demands, but it finds these
parts by reading the line again, and it looks for comments with the usual marker. The two readings
agree where both markers cut the line alike. With another marker they may differ, and then a line
can have too few parts for its kind.
That a step has a text is said for a stack without bounds (`Fault`).
-/
namespace SnippetTutor
open Outcome Machine

namespace Template
variable {r : StepRecord} {kind : StatementKind} {parts : List Text} {t : Text}

/-- Whether a line has the parts that the template of a kind takes. -/
def Fits (kind : StatementKind) (parts : List Text) : Prop :=
  match kind with
  | .functionHeader => parts.length = 2
  | .methodCall => parts.length = 3
  | .assignment | .plainCall => parts ≠ []
  | .functionBodyLine | .printCall | .blank | .comment | .unrecognized => True

instance decidableFits (kind : StatementKind) (parts : List Text) : Decidable (Fits kind parts) :=
  match kind with
  | .functionHeader => inferInstanceAs (Decidable (parts.length = 2))
  | .methodCall => inferInstanceAs (Decidable (parts.length = 3))
  | .assignment | .plainCall => inferInstanceAs (Decidable (parts ≠ []))
  | .functionBodyLine | .printCall | .blank | .comment | .unrecognized => inferInstanceAs (Decidable True)

theorem fits_shape (shape : Shape) : Fits shape.kind shape.parts := by
  cases shape <;> simp [Shape.kind, Shape.parts, Fits]

theorem exists_explain_iff : (∃ t, explain r = .ok t) ↔ Fits r.kind (partsOf r.source) := by
  rw [explain]
  generalize partsOf r.source = parts
  cases r.kind with
  | functionHeader =>
    rcases parts with _ | ⟨name, _ | ⟨params, _ | ⟨more, rest⟩⟩⟩ <;> simp [Fits]
  | methodCall =>
    rcases parts with _ | ⟨object, _ | ⟨action, _ | ⟨arguments, _ | ⟨more, rest⟩⟩⟩⟩ <;> simp [Fits]
  | assignment | plainCall => cases parts <;> simp [Fits]
  | functionBodyLine | printCall | blank | comment | unrecognized => simp [Fits]

theorem explainHeader_ne_nil (name params : Text) : explainHeader name params ≠ [] := by
  unfold explainHeader
  split <;> simp

theorem explainAssignment_ne_nil (memory : Memory) (name : Text) : explainAssignment memory name ≠ [] := by
  unfold explainAssignment
  split <;> simp

theorem explainMethod_ne_nil (memory : Memory) (object action : Text) :
    explainMethod memory object action ≠ [] := by
  unfold explainMethod
  split <;> simp

theorem explainCall_ne_nil (r : StepRecord) (name : Text) : explainCall r name ≠ [] := by
  unfold explainCall
  split <;> simp

theorem explainPrint_ne_nil (output : Option Text) : explainPrint output ≠ [] := by
  unfold explainPrint
  split
  · simp
  · split <;> simp

theorem bodyLine_ne_nil : bodyLine ≠ [] := by decide +kernel

theorem unsimulated_ne_nil : unsimulated ≠ [] := by decide +kernel

theorem ne_nil_of_explain (h : explain r = .ok t) : t ≠ [] := by
  simp only [explain] at h
  cases hk : r.kind with
  | functionHeader =>
    simp only [hk] at h
    split at h
    · rw [← Except.ok.inj h]
      exact explainHeader_ne_nil _ _
    · cases h
  | functionBodyLine =>
    simp only [hk] at h
    rw [← Except.ok.inj h]
    exact bodyLine_ne_nil
  | assignment =>
    simp only [hk] at h
    split at h
    · rw [← Except.ok.inj h]
      exact explainAssignment_ne_nil _ _
    · cases h
  | printCall =>
    simp only [hk] at h
    rw [← Except.ok.inj h]
    exact explainPrint_ne_nil _
  | methodCall =>
    simp only [hk] at h
    split at h
    · rw [← Except.ok.inj h]
      exact explainMethod_ne_nil _ _ _
    · cases h
  | plainCall =>
    simp only [hk] at h
    split at h
    · rw [← Except.ok.inj h]
      exact explainCall_ne_nil _ _
    · cases h
  | blank | comment | unrecognized =>
    simp only [hk] at h
    rw [← Except.ok.inj h]
    exact unsimulated_ne_nil

end Template

section Fresh
variable {records told : List StepRecord}

/-- Records without an explanation are all put to the templates. -/
theorem explainRecords_of_fresh (h : ∀ r ∈ records, r.explanation? = none) :
    explainRecords records = records.mapM fun r => (Template.explain r).map r.explained := by
  induction records with
  | nil => rfl
  | cons r rest ih =>
    rw [List.forall_mem_cons] at h
    have hrest := ih h.2
    rw [explainRecords] at hrest
    rw [explainRecords, List.mapM_cons, List.mapM_cons, hrest, h.1]

theorem exists_explainRecords_iff (h : ∀ r ∈ records, r.explanation? = none) :
    (∃ told, explainRecords records = .ok told) ↔
      ∀ r ∈ records, Template.Fits r.kind (Template.partsOf r.source) := by
  rw [explainRecords_of_fresh h, exists_mapM_iff]
  refine forall₂_congr fun r _ => ?_
  rw [← Template.exists_explain_iff]
  constructor
  · rintro ⟨e, he⟩
    obtain ⟨t, ht, -⟩ := map_eq_ok.mp he
    exact ⟨t, ht⟩
  · rintro ⟨t, ht⟩
    exact ⟨r.explained t, map_eq_ok.mpr ⟨t, ht, rfl⟩⟩

theorem explained_of_explainRecords (h : ∀ r ∈ records, r.explanation? = none)
    (htold : explainRecords records = .ok told) :
    List.Forall₂ (fun e r => ∃ t, t ≠ [] ∧ Template.explain r = .ok t ∧ e = r.explained t) told records := by
  rw [explainRecords_of_fresh h] at htold
  refine (forall₂_of_mapM htold).imp fun e r he => ?_
  obtain ⟨t, ht, rfl⟩ := map_eq_ok.mp he
  exact ⟨t, Template.ne_nil_of_explain ht, ht, rfl⟩

end Fresh

section Marker
variable {marker t : Text}

theorem beforeMarker_eq_none (h : ¬ marker <:+: t) (quote : Quote) : beforeMarker marker quote t = none := by
  induction t generalizing quote with
  | nil => rfl
  | cons c rest ih =>
    have hrest : ¬ marker <:+: rest := fun hm => h (hm.trans (List.suffix_cons c rest).isInfix)
    rw [beforeMarker, if_neg, ih hrest, Option.map_none]
    rintro ⟨-, hm⟩
    exact h (List.isPrefixOf_iff_prefix.mp hm).isInfix

/-- A line that does not hold the marker is read as it stands. -/
theorem uncomment_eq_self (h : ¬ marker <:+: t) : uncomment marker t = t := by
  simp only [uncomment, beforeMarker_eq_none h]

theorem isSkippable_eq_false_of_trimmed (htrim : Text.trim t = t) (hne : t ≠ []) (h : ¬ marker <:+: t) :
    isSkippable marker t = false := by
  rw [isSkippable_eq_false, htrim, List.isEmpty_eq_false_iff]
  refine ⟨hne, ?_⟩
  rw [Bool.eq_false_iff, Ne, List.isPrefixOf_iff_prefix]
  exact fun hm => h hm.isInfix

end Marker

namespace Trace
variable {config : Config} {lines : List Text} {T : Trace} {r : StepRecord}

/-- What a record says of a line that was performed, and of one that was stored. -/
theorem kind_of_record (h : ofLines config lines = .ok T) (hr : r ∈ T.records) :
    isSkippable config.marker r.source = false ∧
      (r.kind = .functionBodyLine ∧ isIndented r.source = true ∨
        r.kind = (Shape.ofText (uncomment config.marker (Text.trim r.source))).kind) := by
  obtain ⟨s, position, rfl, hat, -, -⟩ := exists_stage_of_record h hr
  obtain ⟨-, -, -, hkind⟩ := Step.visit_record hat.visit
  refine ⟨hat.executable, ?_⟩
  rw [hkind]
  rcases Step.stored_or_performed s.before hat.executable with ⟨hc, text, htext⟩ | ⟨shape, start, hp⟩
  · exact Or.inl ⟨Step.kindOf_of_stored hc htext, Statement.isIndented_of_bodyLine htext⟩
  · rw [Step.kindOf_of_performed hp, (performed?_eq_some hp).2.1]
    exact Or.inr rfl

theorem explanation_of_record (h : ofLines config lines = .ok T) (hr : r ∈ T.records) : r.explanation? = none := by
  obtain ⟨s, position, rfl, hat, -, -⟩ := exists_stage_of_record h hr
  obtain ⟨ran, -, hstep⟩ := bind_eq_ok.mp hat.visit
  rw [← Except.ok.inj hstep]
  rfl

end Trace

/-- A single trimmed line that the usual marker cuts in such a way that what is left has not the parts
of its kind. -/
structure Miscut (source : Text) : Prop where
  lines : Text.lines source = [source]
  trimmed : Text.trim source = source
  nonempty : source ≠ []
  runs : ∀ config, ∃ n, perform (call config) (Shape.ofText source) .initial = .ok n
  misfit : ¬ Template.Fits (Shape.ofText source).kind (Template.partsOf source)

/-- With a marker that does not stand in it, such a line is performed as it reads, and the templates
fail on its trace. -/
theorem Miscut.unexplained {config : Config} {source : Text} (h : Miscut source) (hm : ¬ config.marker <:+: source) :
    ∃ T, Trace.ofSource config source = .ok T ∧ ¬ ∃ told, explainRecords T.records = .ok told := by
  have hs := isSkippable_eq_false_of_trimmed h.trimmed h.nonempty hm
  have hp := performed?_of_top (m := .initial) rfl hs
  rw [h.trimmed, uncomment_eq_self hm] at hp
  obtain ⟨n, hn⟩ := h.runs config
  have hrun : executeAll config (Text.lines source) .initial = .ok n := by
    rw [h.lines, executeAll_cons]
    exact bind_eq_ok.mpr ⟨n, (executeWith_of_performed hp).trans hn, rfl⟩
  obtain ⟨T, hT, -⟩ := Trace.exists_of_executeAll hrun
  refine ⟨T, hT, ?_⟩
  intro htold
  have hfirst : (Text.lines source)[0]? = some source := by rw [h.lines, List.getElem?_cons_zero]
  obtain ⟨r, hr, hnumber⟩ := Trace.exists_record hT hfirst hs
  obtain ⟨-, hline⟩ := Trace.line_of_record hT hr
  rw [hnumber] at hline
  have hsource : r.source = source := Option.some.inj (hline.symm.trans hfirst)
  have hfits := (exists_explainRecords_iff fun r hr => Trace.explanation_of_record hT hr).mp htold r hr
  rcases (Trace.kind_of_record hT hr).2 with ⟨-, hi⟩ | hkind
  · rw [hsource, ← h.trimmed, isIndented, Text.not_startsBlank_trim] at hi
    cases hi
  · rw [hkind, hsource, h.trimmed, uncomment_eq_self hm] at hfits
    exact h.misfit hfits

/-- A call and an assignment that have nothing but the usual marker in common. -/
def markedCall : Text := ['f', '(', '#', ')']

def markedAssignment : Text := ['g', '=', '#']

theorem miscut_markedCall : Miscut markedCall where
  lines := by decide
  trimmed := by decide
  nonempty := by decide
  runs config := by
    have hshape : Shape.ofText markedCall = .call ['f'] ['#'] := by decide +kernel
    rw [hshape]
    exact ⟨_, rfl⟩
  misfit := by
    have hkind : (Shape.ofText markedCall).kind = .plainCall := by decide +kernel
    have hparts : Template.partsOf markedCall = [] := by decide +kernel
    simp [hkind, hparts, Template.Fits]

theorem miscut_markedAssignment : Miscut markedAssignment where
  lines := by decide
  trimmed := by decide
  nonempty := by decide
  runs config := by
    have hshape : Shape.ofText markedAssignment = .assignment ['g'] ['#'] := by decide +kernel
    have hvalue : Literal.coerce [] ['#'] = .ok (.text ['#']) := eq_ok_of_toOption (by decide +kernel)
    rw [hshape]
    exact ⟨_, bind_eq_ok.mpr ⟨_, hvalue, rfl⟩⟩
  misfit := by
    have hkind : (Shape.ofText markedAssignment).kind = .assignment := by decide +kernel
    have hparts : Template.partsOf markedAssignment = [] := by decide +kernel
    simp [hkind, hparts, Template.Fits]

/-- No other marker stands in both of these lines. -/
theorem marker_of_infixes {marker : Text} (hcall : marker <:+: markedCall)
    (hassignment : marker <:+: markedAssignment) : marker = [] ∨ marker = ['#'] := by
  have hall : ∀ c ∈ marker, c = '#' := by
    intro c hc
    have hleft := hcall.subset hc
    have hright := hassignment.subset hc
    simp only [markedCall, markedAssignment, List.mem_cons, List.not_mem_nil, or_false] at hleft hright
    rcases hright with rfl | rfl | rfl
    · simp at hleft
    · simp at hleft
    · rfl
  have hlength : marker.length ≤ 1 := by
    have hcount := hcall.sublist.count_le '#'
    rw [List.count_eq_length.mpr fun c hc => (hall c hc).symm] at hcount
    exact hcount
  cases marker with
  | nil => exact Or.inl rfl
  | cons c rest =>
    have hrest : rest = [] := List.length_eq_zero_iff.mp (by simpa using hlength)
    rw [hrest, hall c List.mem_cons_self]
    exact Or.inr rfl

namespace Trace
variable {config : Config} {lines : List Text} {T : Trace} {r : StepRecord}

theorem fits_of_record (hmarker : config.marker = [] ∨ config.marker = ['#']) (h : ofLines config lines = .ok T)
    (hr : r ∈ T.records) : Template.Fits r.kind (Template.partsOf r.source) := by
  obtain ⟨hs, hkind⟩ := kind_of_record h hr
  rcases hmarker with hempty | husual
  · simp [isSkippable, hempty] at hs
  · rcases hkind with ⟨hkind, -⟩ | hkind
    · rw [hkind]
      exact trivial
    · rw [hkind, husual]
      exact Template.fits_shape _

end Trace

/-- The templates explain the traces of all sources exactly if the marker is the usual one, or the
empty one, with which every line is a comment. Whatever the marker, a line that is not stored is read
again as what it was recorded as if both markers cut it alike; the steps of a trace can be explained
if and only if each line has, as it is read again, the parts that its recorded kind takes; and then
each step has its own text, which is not empty. -/
theorem explains_every_source_iff (config : Config) :
    ((∀ source T, Trace.ofSource config source = .ok T → ∃ told, explainRecords T.records = .ok told) ↔
      config.marker = [] ∨ config.marker = ['#']) ∧
    ∀ source T, Trace.ofSource config source = .ok T →
      (∀ r ∈ T.records, r.kind ≠ .functionBodyLine →
        uncomment config.marker (Text.trim r.source) = uncomment ['#'] (Text.trim r.source) →
        (Shape.ofText (uncomment ['#'] (Text.trim r.source))).kind = r.kind) ∧
      ((∃ told, explainRecords T.records = .ok told) ↔
        ∀ r ∈ T.records, Template.Fits r.kind (Template.partsOf r.source)) ∧
      ∀ told, explainRecords T.records = .ok told →
        List.Forall₂ (fun e r => ∃ t, t ≠ [] ∧ Template.explain r = .ok t ∧ e = r.explained t) told T.records := by
  refine ⟨⟨?_, ?_⟩, ?_⟩
  · intro hall
    by_contra hmarker
    have hinfix : ¬ (config.marker <:+: markedCall ∧ config.marker <:+: markedAssignment) :=
      fun h => hmarker (marker_of_infixes h.1 h.2)
    rcases not_and_or.mp hinfix with hm | hm
    · obtain ⟨T, hT, hnone⟩ := miscut_markedCall.unexplained hm
      exact hnone (hall markedCall T hT)
    · obtain ⟨T, hT, hnone⟩ := miscut_markedAssignment.unexplained hm
      exact hnone (hall markedAssignment T hT)
  · intro hmarker source T hT
    rw [exists_explainRecords_iff fun r hr => Trace.explanation_of_record hT hr]
    exact fun r hr => Trace.fits_of_record hmarker hT hr
  · intro source T hT
    have hfresh : ∀ r ∈ T.records, r.explanation? = none := fun r hr => Trace.explanation_of_record hT hr
    refine ⟨?_, exists_explainRecords_iff hfresh, fun told htold => explained_of_explainRecords hfresh htold⟩
    intro r hr hbody hcut
    rcases (Trace.kind_of_record hT hr).2 with ⟨hkind, -⟩ | hkind
    · exact absurd hkind hbody
    · rw [hkind, hcut]

/-- Two lines that keep their kinds, with a comment that the templates do not take for one. -/
def remarked : Text := "x = [1] // one\nprint(x) // shown".toList

theorem explains_every_source_iff_slashed :
    (¬ ∀ source T, Trace.ofSource slashed source = .ok T → ∃ told, explainRecords T.records = .ok told) ∧
    ∃ T told, Trace.ofSource slashed remarked = .ok T ∧ explainRecords T.records = .ok told ∧
      told.map StepRecord.lineNumber = [1, 2] := by
  obtain ⟨hall, htrace⟩ := explains_every_source_iff slashed
  refine ⟨by rw [hall]; decide, ?_⟩
  have hT := Option.eq_some_of_isSome (o := (Trace.ofSource slashed remarked).toOption) (by decide +kernel)
  obtain ⟨-, hiff, -⟩ := htrace remarked _ (eq_ok_of_toOption hT)
  obtain ⟨told, htold⟩ := hiff.mpr (by decide +kernel)
  refine ⟨_, told, eq_ok_of_toOption hT, htold, ?_⟩
  have hcomputed : (explainRecords ((Trace.ofSource slashed remarked).toOption.get
      (by decide +kernel)).records).toOption.map (fun told => told.map StepRecord.lineNumber) = some [1, 2] := by
    decide +kernel
  rw [htold] at hcomputed
  exact Option.some.inj hcomputed

/-- A definition whose header ends in a comment. -/
def noted : Text := "def f(): // note".toList

def notedRecord : StepRecord where
  index := 0
  lineNumber := 1
  source := noted
  kind := .functionHeader
  memory := [("f".toList, .function ⟨"f".toList, [], []⟩)]

/-- The trace of that source if comments start with two slashes. -/
def notedTrace : Trace where
  records := [notedRecord]
  memory := notedRecord.memory
  stats := { steps := 1, sourceLines := 1, functionsDefined := 1 }

/-- The note is left on the header when the line is read again, and what is then read is no header. -/
theorem noted_unexplained : Trace.ofSource slashed noted = .ok notedTrace ∧
    explainRecords notedTrace.records = .error (.tooFew 2 0) ∧
    (Shape.ofText (uncomment ['#'] (Text.trim noted))).kind = .unrecognized := by
  have hT : (Trace.ofSource slashed noted).toOption = some notedTrace := by decide +kernel
  have hparts : Template.partsOf noted = [] := by decide +kernel
  have hmisfit : Template.explain notedRecord = .error (.tooFew 2 0) := by
    simp [Template.explain, notedRecord, hparts, Template.misfit]
  have hfresh : ∀ r ∈ notedTrace.records, r.explanation? = none := by
    simp [notedTrace, notedRecord, StepRecord.explanation?]
  refine ⟨eq_ok_of_toOption hT, ?_, by decide +kernel⟩
  rw [explainRecords_of_fresh hfresh, notedTrace, List.mapM_cons]
  exact bind_eq_error.mpr (Or.inl (map_eq_error.mpr hmisfit))

end SnippetTutor
