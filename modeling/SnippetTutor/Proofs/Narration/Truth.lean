import SnippetTutor.Proofs.Narration.Template
import SnippetTutor.Proofs.Statement.Shape

/-! # Whether the templates tell the truth

A template judges by the record alone what a step has done: by the presence of a name in the memory,
by the first letters of what was printed. The statement itself was executed by the types of the values
and by the order in which a name is resolved. This tells for every step when the two agree.
-/
namespace SnippetTutor
open Outcome Machine

/-- What is printed for this argument is the report of an unknown name. -/
structure Print.Unknown (memory : Memory) (argument : Text) : Prop where
  nonempty : argument ≠ []
  unquoted : Literal.unquote? argument = none
  unbound : Fields.get? memory argument = none
  noSum : '+' ∉ argument
  noNumber : Literal.number? argument = none
  noKeyword : Literal.keyword? argument = none

instance Print.decidableUnknown (memory : Memory) (argument : Text) : Decidable (Print.Unknown memory argument) :=
  decidable_of_iff (argument ≠ [] ∧ Literal.unquote? argument = none ∧ Fields.get? memory argument = none ∧
      '+' ∉ argument ∧ Literal.number? argument = none ∧ Literal.keyword? argument = none)
    ⟨fun ⟨ha, hb, hc, hd, he, hf⟩ => ⟨ha, hb, hc, hd, he, hf⟩,
      fun ⟨ha, hb, hc, hd, he, hf⟩ => ⟨ha, hb, hc, hd, he, hf⟩⟩

theorem Print.Unknown.text {memory : Memory} {argument : Text} (h : Print.Unknown memory argument) :
    Print.text memory argument = Print.unknownName argument := by
  have hempty : argument.isEmpty = false := List.isEmpty_eq_false_iff.mpr h.nonempty
  simp [Print.text, hempty, h.unquoted, h.unbound, h.noSum, h.noNumber, h.noKeyword]

namespace Template
variable {memory : Memory} {object action t : Text} {shape : Shape} {r : StepRecord}

/-! The sentences that say what a statement has done. -/

def onList (object action shown : Text) : Text :=
  "Calls ".toList ++ named action ++ " on the list ".toList ++ named object ++ ", which now holds ".toList ++
    shown ++ ['.']

def changesNothing (object action : Text) : Text :=
  "Calls ".toList ++ named (object ++ '.' :: action) ++ ", which changes nothing here.".toList

def reportsUnknown : Text :=
  "Tries to print a name that was never assigned, so Python reports a NameError.".toList

def runsBody (name : Text) : Text :=
  "Calls ".toList ++ named name ++ " and runs its body with the given arguments.".toList

def bodyPrinted (name : Text) (count : Nat) : Text :=
  "Calls ".toList ++ named name ++ "; its body printed ".toList ++ Text.ofNat count ++ " line(s).".toList

section Method

/-- Whether a method call is one that changes a list. -/
def ChangesList (memory : Memory) (object action : Text) : Prop :=
  (memory.list? object).isSome ∧ (ListAction.ofName? action).isSome

instance decidableChangesList (memory : Memory) (object action : Text) :
    Decidable (ChangesList memory object action) :=
  inferInstanceAs (Decidable (_ ∧ _))

/-- What is true of a method call: a list was changed and shows its new value, or nothing was. -/
def methodText (memory : Memory) (object action : Text) : Text :=
  match memory.list? object, ListAction.ofName? action with
  | some items, some _ => onList object action (Value.list items).display
  | _, _ => changesNothing object action

theorem explainMethod_of_bound {v : Value} (h : Fields.get? memory object = some v) :
    explainMethod memory object action = onList object action v.display := by
  unfold explainMethod onList
  rw [h]

theorem explainMethod_of_unbound (h : Fields.get? memory object = none) :
    explainMethod memory object action = changesNothing object action := by
  unfold explainMethod changesNothing
  rw [h]

theorem methodText_of_not_changesList (h : ¬ ChangesList memory object action) :
    methodText memory object action = changesNothing object action := by
  unfold methodText
  split
  · next hitems haction => exact absurd ⟨by simp [hitems], by simp [haction]⟩ h
  · rfl

theorem onList_ne_changesNothing (hobject : '\x60' ∉ object) (haction : '.' ∉ action) (shown : Text) :
    onList object action shown ≠ changesNothing object action := by
  intro h
  unfold onList changesNothing named at h
  generalize "Calls ".toList = calls, " on the list ".toList = onTheList, ", which now holds ".toList = nowHolds,
    ", which changes nothing here.".toList = nothing at h
  simp only [List.append_assoc, List.cons_append] at h
  have htail := (List.cons.inj (List.append_cancel_left h)).2
  -- the shorter of the two names is followed by its mark, and the longer one would hold that mark
  rcases List.append_eq_append_iff.mp htail with ⟨more, hmore, hrest⟩ | ⟨more, hmore, hrest⟩
  · cases more with
    | nil => exact absurd (List.cons.inj hrest).1 (by decide)
    | cons c more =>
      obtain ⟨rfl, -⟩ := List.cons.inj hrest
      exact hobject (by simp [hmore])
  · cases more with
    | nil => exact absurd (List.cons.inj hrest).1 (by decide)
    | cons c more =>
      obtain ⟨rfl, -⟩ := List.cons.inj hrest
      exact haction (by simp [hmore])

theorem explainMethod_eq_iff (hobject : '\x60' ∉ object) (haction : '.' ∉ action) :
    explainMethod memory object action = methodText memory object action ↔
      ((Fields.get? memory object).isSome → ChangesList memory object action) := by
  cases hv : Fields.get? memory object with
  | none =>
    have hlist : ¬ ChangesList memory object action := by simp [ChangesList, Memory.list?, hv]
    rw [explainMethod_of_unbound hv, methodText_of_not_changesList hlist]
    simp
  | some v =>
    rw [explainMethod_of_bound hv]
    constructor
    · intro htext _
      by_contra hchanges
      rw [methodText_of_not_changesList hchanges] at htext
      exact onList_ne_changesNothing hobject haction _ htext
    · intro hchanges
      obtain ⟨hlist, hname⟩ := hchanges rfl
      obtain ⟨items, hitems⟩ := Option.isSome_iff_exists.mp hlist
      obtain ⟨known, hknown⟩ := Option.isSome_iff_exists.mp hname
      have hvalue : v = .list items := by
        rw [Memory.list?, hv, Option.bind_some] at hitems
        cases v <;> simp_all [Value.items?]
      rw [methodText, hitems, hknown, hvalue]

end Method

section Print

theorem explainPrint_of_isPrefixOf (h : "NameError".toList.isPrefixOf t = true) :
    explainPrint (some t) = reportsUnknown := by
  have hne : t.isEmpty = false := by
    cases t with
    | nil => exact absurd h (by decide)
    | cons c rest => rfl
  unfold explainPrint reportsUnknown
  rw [Option.filter_some, if_pos (by simp [hne])]
  dsimp only
  rw [if_pos h]

theorem explainPrint_ne_reportsUnknown (h : "NameError".toList.isPrefixOf t = false) :
    explainPrint (some t) ≠ reportsUnknown := by
  cases t with
  | nil => decide +kernel
  | cons c rest =>
    have hprints : "Prints ".toList.head? = some 'P' := by decide
    have htries : reportsUnknown.head? = some 'T' := by decide +kernel
    intro htext
    have hhead := congrArg List.head? htext
    unfold explainPrint at hhead
    rw [Option.filter_some, if_pos (by simp)] at hhead
    dsimp only at hhead
    rw [if_neg (Bool.eq_false_iff.mp h), List.append_assoc, List.head?_append, hprints, htries] at hhead
    cases hhead

theorem explainPrint_eq_reportsUnknown_iff :
    explainPrint (some t) = reportsUnknown ↔ "NameError".toList.isPrefixOf t = true := by
  cases h : "NameError".toList.isPrefixOf t with
  | true => exact iff_of_true (explainPrint_of_isPrefixOf h) rfl
  | false => exact iff_of_false (explainPrint_ne_reportsUnknown h) Bool.false_ne_true

theorem isPrefixOf_of_unknown {argument : Text} (h : Print.Unknown memory argument) :
    "NameError".toList.isPrefixOf (Print.text memory argument) = true := by
  have hstart : "NameError".toList <+: "NameError: name '".toList :=
    List.isPrefixOf_iff_prefix.mp (by decide +kernel)
  rw [h.text, List.isPrefixOf_iff_prefix]
  unfold Print.unknownName
  rw [List.append_assoc]
  exact hstart.trans (List.prefix_append _ _)

end Print

section Step

theorem explainCall_cases (r : StepRecord) (name : Text) :
    explainCall r name = runsBody name ∨ ∃ count, explainCall r name = bodyPrinted name count := by
  unfold explainCall runsBody bodyPrinted
  split
  · exact Or.inr ⟨_, rfl⟩
  · exact Or.inl rfl

/-- The text for a step on a statement of this shape. -/
def explainShape (r : StepRecord) : Shape → Text
  | .header name params => explainHeader name params
  | .assignment name _ => explainAssignment r.memory name
  | .print _ => explainPrint r.output
  | .method object action _ => explainMethod r.memory object action
  | .call name _ => explainCall r name
  | .unrecognized => unsimulated

theorem explain_of_shape (hkind : r.kind = shape.kind) (hparts : partsOf r.source = shape.parts) :
    explain r = .ok (explainShape r shape) := by
  unfold explain
  rw [hkind, hparts]
  cases shape <;> rfl

/-- What a step on a statement of this shape has done, from the machine `start` on. -/
def Executed (r : StepRecord) (start : Machine) : Shape → Prop
  | .method object action _ => ¬ ChangesList r.memory object action → r.memory = start.memory
  | .print argument => r.memory = start.memory ∧ r.output = some (Print.text start.memory argument)
  | .call name _ => start.memory.function? name = none → r.memory = start.memory ∧ r.output = none
  | .header _ _ | .assignment _ _ | .unrecognized => True

/-- What the text says of the step is so: that a list was changed, that a name is unknown, and that a
body ran. -/
def Truthful (r : StepRecord) (start : Machine) (t : Text) : Shape → Prop
  | .method object action _ => t = methodText r.memory object action
  | .print argument => t = reportsUnknown ↔ Print.Unknown start.memory argument
  | .call name _ =>
    (t = runsBody name ∨ ∃ count, t = bodyPrinted name count) → (start.memory.function? name).isSome
  | .header _ _ | .assignment _ _ | .unrecognized => True

/-- What the text takes for granted: that a bound name is a list which the call changes, that a text which
starts like the report of an unknown name is one, and that the name which is called is a function. -/
def Warranted (r : StepRecord) (start : Machine) : Shape → Prop
  | .method object action _ => (Fields.get? r.memory object).isSome → ChangesList r.memory object action
  | .print argument =>
    "NameError".toList.isPrefixOf (Print.text start.memory argument) = true → Print.Unknown start.memory argument
  | .call name _ => (start.memory.function? name).isSome
  | .header _ _ | .assignment _ _ | .unrecognized => True

theorem truthful_iff_warranted {start : Machine} {line : Text} (hshape : shape = Shape.ofText line)
    (h : Executed r start shape) : Truthful r start (explainShape r shape) shape ↔ Warranted r start shape := by
  cases shape with
  | header | assignment | unrecognized => exact Iff.rfl
  | method object action arguments =>
    obtain ⟨written, hparts, -⟩ := Shape.methodParts?_of_ofText hshape.symm
    have hobject := (Shape.not_mem_of_methodParts? (d := '\x60') (by decide) (by decide +kernel) hparts).1
    have haction := (Shape.not_mem_of_methodParts? (d := '.') (by decide) (by decide +kernel) hparts).2
    exact explainMethod_eq_iff hobject haction
  | print argument =>
    obtain ⟨-, houtput⟩ := h
    simp only [Truthful, Warranted, explainShape, houtput, explainPrint_eq_reportsUnknown_iff]
    exact ⟨Iff.mp, fun hwarranted => ⟨hwarranted, isPrefixOf_of_unknown⟩⟩
  | call name arguments =>
    constructor
    · intro htrue
      exact htrue (explainCall_cases r name)
    · intro hbound _
      exact hbound

end Step

end Template

namespace Machine
variable {config : Config} {object action arguments : Text} {shape : Shape} {m n : Machine}

theorem callMethod_of_not_changesList (h : ¬ Template.ChangesList m.memory object action) :
    m.callMethod object action arguments = .ok m := by
  unfold callMethod
  split
  · next haction hitems => exact absurd ⟨by simp [hitems], by simp [haction]⟩ h
  · rfl

/-- A list stays a list when a method has changed it. -/
theorem changesList_of_callMethod (h : m.callMethod object action arguments = .ok n)
    (hm : Template.ChangesList m.memory object action) : Template.ChangesList n.memory object action := by
  obtain ⟨hlist, haction⟩ := hm
  unfold callMethod at h
  split at h
  · obtain ⟨changed, -, h⟩ := bind_eq_ok.mp h
    cases h
    refine ⟨?_, haction⟩
    rw [bind, Memory.bind, Memory.list?, Fields.get?_assign_self]
    rfl
  · cases h
    exact ⟨hlist, haction⟩

end Machine

namespace Stage
variable {config : Config} {lines : List Text} {position : Nat} {shape : Shape} {start : Machine} {s : Stage}

/-- A step that opens no definition records what its statement has made. -/
theorem At.performed (hat : s.At config lines position)
    (hp : performed? config.marker s.step.record.source s.before = some (shape, start))
    (hshape : shape.kind ≠ .functionHeader) : ∃ ran, perform (call config) shape start = .ok ran ∧
      s.step.record.memory = ran.memory ∧
      s.step.record.output = StepRecord.joinOutput (ran.output.drop start.output.length) := by
  obtain ⟨ran, hran, -, hmachine, hmemory, houtput⟩ := Step.visit_eq_ok hat.visit
  have hperform : perform (call config) shape start = .ok ran := (executeWith_of_performed hp).symm.trans hran
  have hclosed : s.step.machine = ran := by
    have hpending := perform_pending (performed?_eq_some hp).2.2 hshape hperform
    have hsame : ran.closeDefinition = ran := by simp [closeDefinition, hpending]
    rw [hmachine, hsame, ite_self]
  have hstart : start.output = s.before.output := by
    rcases performed?_machine hp with rfl | rfl
    · rfl
    · exact closeDefinition_output _
  refine ⟨ran, hperform, ?_, ?_⟩
  · rw [hmemory, hclosed]
  · rw [houtput, hclosed, hstart]

theorem At.executed (hat : s.At config lines position)
    (hp : performed? config.marker s.step.record.source s.before = some (shape, start)) :
    Template.Executed s.step.record start shape := by
  cases shape with
  | header | assignment | unrecognized => exact trivial
  | method object action arguments =>
    obtain ⟨ran, hran, hmemory, -⟩ := hat.performed hp (by simp [Shape.kind])
    intro hunchanged
    by_cases hstart : Template.ChangesList start.memory object action
    · rw [hmemory] at hunchanged
      exact absurd (changesList_of_callMethod hran hstart) hunchanged
    · cases hran.symm.trans (callMethod_of_not_changesList hstart)
      exact hmemory
  | print argument =>
    obtain ⟨ran, hran, hmemory, houtput⟩ := hat.performed hp (by simp [Shape.kind])
    cases hran
    refine ⟨hmemory, ?_⟩
    rw [houtput, emit, List.drop_left]
    simp [StepRecord.joinOutput, Text.joinWith]
  | call name arguments =>
    obtain ⟨ran, hran, hmemory, houtput⟩ := hat.performed hp (by simp [Shape.kind])
    intro hunbound
    simp only [perform, hunbound] at hran
    cases hran
    refine ⟨hmemory, ?_⟩
    rw [houtput, List.drop_length]
    rfl

end Stage

/-- The text for a step tells the truth exactly if what it takes for granted is so. A method call is said
to change a list whenever its object has a value, although it changes nothing unless this is a list and
the method is known. A name is said to be unknown whenever the printed text starts like that report, which
a printed string can do as well. And a body is said to have run on every call, also on that of a name that
was no function. -/
theorem explanation_truthful_iff {config : Config} {source : Text} {T : Trace} {r : StepRecord}
    (hmarker : config.marker = ['#']) (hT : Trace.ofSource config source = .ok T) (hr : r ∈ T.records)
    (hbody : r.kind ≠ .functionBodyLine) :
    ∃ m shape start t, executeAll config ((Text.lines source).take (r.lineNumber - 1).toNat) .initial = .ok m ∧
      performed? config.marker r.source m = some (shape, start) ∧ r.kind = shape.kind ∧
      Template.Executed r start shape ∧ Template.explain r = .ok t ∧
      (Template.Truthful r start t shape ↔ Template.Warranted r start shape) := by
  obtain ⟨s, position, rfl, hat, hnumber, hbefore⟩ := Trace.exists_stage_of_record hT hr
  obtain ⟨-, -, -, hkind⟩ := Step.visit_record hat.visit
  have hposition : (s.step.record.lineNumber - 1).toNat = position := by omega
  rcases Step.stored_or_performed s.before hat.executable with ⟨hc, text, htext⟩ | ⟨shape, start, hp⟩
  · rw [hkind, Step.kindOf_of_stored hc htext] at hbody
    exact absurd rfl hbody
  · obtain ⟨-, hshape, -⟩ := performed?_eq_some hp
    rw [Step.kindOf_of_performed hp] at hkind
    have hparts : Template.partsOf s.step.record.source = shape.parts := by
      rw [Template.partsOf, hshape, hmarker]
    refine ⟨s.before, shape, start, Template.explainShape s.step.record shape, ?_, hp, hkind, hat.executed hp,
      Template.explain_of_shape hkind hparts, Template.truthful_iff_warranted hshape (hat.executed hp)⟩
    rw [hposition]
    exact hbefore

/-- A list that is changed by a known method. -/
def appended : Text := "xs = [1]\nxs.append(2)".toList

theorem explanation_truthful_iff_appended : ∃ T r start t, Trace.ofSource {} appended = .ok T ∧
    r ∈ T.records ∧ Template.explain r = .ok t ∧
    Template.Truthful r start t (.method "xs".toList "append".toList ['2']) ∧
    t = Template.onList "xs".toList "append".toList "[1, 2]".toList := by
  have hT := Option.eq_some_of_isSome (o := (Trace.ofSource {} appended).toOption) (by decide +kernel)
  have hr := List.getLast_mem (l := ((Trace.ofSource {} appended).toOption.get (by decide +kernel)).records)
    (by decide +kernel)
  obtain ⟨m, shape, start, t, -, hp, -, -, ht, hiff⟩ :=
    explanation_truthful_iff rfl (eq_ok_of_toOption hT) hr (by decide +kernel)
  have hshape : shape = .method "xs".toList "append".toList ['2'] := by
    rw [(performed?_eq_some hp).2.1]
    decide +kernel
  rw [hshape] at hiff
  have htrue := hiff.mpr fun _ => (by decide +kernel)
  refine ⟨_, _, start, t, eq_ok_of_toOption hT, hr, ht, htrue, htrue.trans ?_⟩
  decide +kernel

/-- A number is said to be a list, a printed string is said to be the report of an unknown name, and the
body of a function that does not exist is said to have run. -/
theorem untrue_explanations :
    (∃ T r, Trace.ofSource {} "x = 1\nx.append(2)".toList = .ok T ∧ r ∈ T.records ∧ r.kind = .methodCall ∧
      Template.explain r = .ok (Template.onList ['x'] "append".toList ['1']) ∧ r.memory.list? ['x'] = none) ∧
    (∃ T r, Trace.ofSource {} "x = 'NameError'\nprint(x)".toList = .ok T ∧ r ∈ T.records ∧ r.kind = .printCall ∧
      Template.explain r = .ok Template.reportsUnknown ∧ ¬ Print.Unknown r.memory ['x']) ∧
    (∃ T r, Trace.ofSource {} "f()".toList = .ok T ∧ r ∈ T.records ∧ r.kind = .plainCall ∧
      Template.explain r = .ok (Template.runsBody ['f']) ∧ Machine.initial.memory.function? ['f'] = none) := by
  refine ⟨?_, ?_, ?_⟩
  · have hT := Option.eq_some_of_isSome
      (o := (Trace.ofSource {} "x = 1\nx.append(2)".toList).toOption) (by decide +kernel)
    exact ⟨_, _, eq_ok_of_toOption hT, List.getLast_mem (by decide +kernel), by decide +kernel,
      eq_ok_of_toOption (by decide +kernel), by decide +kernel⟩
  · have hT := Option.eq_some_of_isSome
      (o := (Trace.ofSource {} "x = 'NameError'\nprint(x)".toList).toOption) (by decide +kernel)
    exact ⟨_, _, eq_ok_of_toOption hT, List.getLast_mem (by decide +kernel), by decide +kernel,
      eq_ok_of_toOption (by decide +kernel), by decide +kernel⟩
  · have hT := Option.eq_some_of_isSome (o := (Trace.ofSource {} "f()".toList).toOption) (by decide +kernel)
    exact ⟨_, _, eq_ok_of_toOption hT, List.getLast_mem (by decide +kernel), by decide +kernel,
      eq_ok_of_toOption (by decide +kernel), by decide +kernel⟩

end SnippetTutor
