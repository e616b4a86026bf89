import Mathlib.Tactic.SplitIfs
import SnippetTutor.Proofs.Machine.Bodies
import SnippetTutor.Proofs.Machine.Fault
import SnippetTutor.Proofs.Machine.Targets
import SnippetTutor.Proofs.Statement.Grammar

/-! # List calls as statements and in assignments

An item can be appended to a list, or taken off it, by a statement or by an assignment, which also
keeps the result. Both do the same to the list, but they do not agree on what an empty argument is:
the statement trims its argument before it looks whether there is one, and the assignment does not.
That a call has a result is said for a stack without bounds (`Fault`).
-/
namespace SnippetTutor

/-- A line that is no comment and holds none. -/
def Uncommented (marker line : Text) : Prop := ¬ marker <+: line ∧ uncomment marker line = line

instance (marker line : Text) : Decidable (Uncommented marker line) := inferInstanceAs (Decidable (_ ∧ _))

namespace Statement
open Shape Text
variable {marker line object action argument target : Text}

/-- The text of a call on an object. -/
def callOn (object action argument : Text) : Text := object ++ '.' :: (action ++ '(' :: (argument ++ [')']))

def assigning (target expr : Text) : Text := target ++ ' ' :: '=' :: ' ' :: expr

theorem ofLine_of_uncommented (htrim : trim line = line) (hne : line ≠ []) (h : Uncommented marker line) :
    ofLine marker line = ofText line := by
  have hs : isSkippable marker line = false := by
    rw [isSkippable_eq_false, htrim, List.isEmpty_eq_false_iff, ← Bool.not_eq_true, List.isPrefixOf_iff_prefix]
    exact ⟨hne, h.1⟩
  have hline := ofLine_trim hs
  rwa [htrim, h.2] at hline

/-- What starts with a name and ends with a parenthesis is trimmed. -/
theorem trim_of_isName {name : Text} (hname : IsName name) (body : Text) :
    trim (name ++ (body ++ [')'])) = name ++ (body ++ [')']) :=
  trim_between (trim_name hname) (ne_nil_of_isName hname) (by decide) (List.cons_ne_nil _ _) body

theorem trim_callOn (hobject : IsName object) (action argument : Text) :
    trim (callOn object action argument) = callOn object action argument := by
  have h := trim_of_isName hobject ('.' :: (action ++ '(' :: argument))
  simpa [callOn] using h

theorem trim_assigning {expr : Text} (htarget : IsName target) (hexpr : trim expr = expr) (hne : expr ≠ []) :
    trim (assigning target expr) = assigning target expr :=
  trim_between (trim_name htarget) (ne_nil_of_isName htarget) hexpr hne " = ".toList

theorem decomposes_callOn (hobject : IsName object) (haction : IsName action) (argument : Text) :
    Decomposes (callOn object action argument) (.method object action argument) :=
  .method hobject haction ⟨[], [], blanks_nil, blanks_nil, rfl⟩ rfl

theorem not_mem_callOn {d : Char} (h : d ∉ assigning target (callOn object action argument)) :
    d ∉ callOn object action argument := by
  simp only [assigning, List.mem_append, List.mem_cons, not_or] at h
  exact h.2.2.2.2

theorem ofLine_callOn (hobject : IsName object) (haction : IsName action)
    (hline : '\n' ∉ callOn object action argument) (h : Uncommented marker (callOn object action argument)) :
    ofLine marker (callOn object action argument) =
      .shaped (callOn object action argument) (.method object action (trim argument)) := by
  rw [ofLine_of_uncommented (trim_callOn hobject action argument) (by simp [callOn]) h, ofText,
    ofText_of_method hline (decomposes_callOn hobject haction argument)]

theorem ofLine_assigning {expr : Text} (htarget : IsName target) (hexpr : trim expr = expr) (hne : expr ≠ [])
    (hline : '\n' ∉ assigning target expr) (h : Uncommented marker (assigning target expr)) :
    ofLine marker (assigning target expr) = .shaped (assigning target expr) (.assignment target expr) := by
  have hdecomposes : Decomposes (assigning target expr) (.assignment target (' ' :: expr)) :=
    .assignment htarget (by decide : Blanks [' ']) (by simp) (by simp) rfl
  have hspace : trim (' ' :: expr) = expr := by
    have hleft : trimLeft (' ' :: expr) = trimLeft expr := rfl
    rw [trim, hleft, ← trim, hexpr]
  rw [ofLine_of_uncommented (trim_assigning htarget hexpr hne) (by simp [assigning]) h, ofText,
    ofText_of_assignment hline hdecomposes, hspace]

end Statement

namespace ListAction
open Outcome Text
variable {action : ListAction} {items : List Value} {argument : Text} {memory : Memory}

/-- An argument that is there, but is nothing when it is trimmed. -/
def BlankAppend (action : ListAction) (argument : Text) : Prop :=
  action = .append ∧ argument ≠ [] ∧ trim argument = []

theorem coerce_trim (memory : Memory) (token : Text) :
    Literal.coerce memory (trim token) = Literal.coerce memory token := by
  simp only [Literal.coerce, trim_trim]

theorem apply_trim (haction : action = .append ∨ action = .pop) (h : ¬ BlankAppend action argument) :
    action.apply items (trim argument) memory = action.apply items argument memory := by
  rcases haction with rfl | rfl
  · by_cases hne : argument = []
    · rw [hne]
      rfl
    · have htrim : trim argument ≠ [] := fun hblank => h ⟨rfl, hne, hblank⟩
      simp only [apply, appendTo, List.isEmpty_iff, hne, htrim, if_false, coerce_trim]
  · rfl

/-- A blank token is resolved as the name without letters. -/
theorem coerce_of_blank {token : Text} (h : trim token = []) :
    Literal.coerce memory token = .ok ((Fields.get? memory []).getD (.text [])) := by
  have hscalar : Literal.scalar? [] = none := by decide +kernel
  simp [Literal.coerce, h, hscalar]

theorem apply_of_blank (h : BlankAppend action argument) :
    action.apply items (trim argument) memory = .ok items ∧
      action.apply items argument memory = .ok (items ++ [(Fields.get? memory []).getD (.text [])]) := by
  obtain ⟨rfl, hne, hblank⟩ := h
  constructor
  · rw [hblank]
    rfl
  · simp only [apply, appendTo, List.isEmpty_iff, hne, if_false, coerce_of_blank hblank]
    rfl

/-- Trimming the argument first makes a difference for a blank one only. -/
theorem apply_trim_cases (items : List Value) (argument : Text) (memory : Memory)
    (haction : action = .append ∨ action = .pop) :
    (action = .append ∧ Literal.Faulty argument ∧
      ∃ fault, action.apply items (trim argument) memory = .error fault ∧
        action.apply items argument memory = .error fault) ∨
    ∃ trimmed untrimmed, action.apply items (trim argument) memory = .ok trimmed ∧
      action.apply items argument memory = .ok untrimmed ∧
      (trimmed = untrimmed ↔ ¬ BlankAppend action argument) := by
  by_cases hblank : BlankAppend action argument
  · obtain ⟨htrimmed, huntrimmed⟩ : action.apply items (trim argument) memory = .ok items ∧ _ :=
      apply_of_blank hblank
    exact Or.inr ⟨_, _, htrimmed, huntrimmed, by simp [hblank]⟩
  · have hsame : action.apply items (trim argument) memory = _ := apply_trim haction hblank
    rcases ok_or_error (action.apply items argument memory) with ⟨changed, hchanged⟩ | ⟨fault, hfault⟩
    · exact Or.inr ⟨_, _, hsame.trans hchanged, hchanged, iff_of_true rfl hblank⟩
    · refine Or.inl ?_
      obtain ⟨token, htoken, hfaulty⟩ := apply_eq_error.mp hfault
      rcases haction with rfl | rfl
      · have htoken : token = argument := by
          simp only [operands] at htoken
          split at htoken
          · cases htoken
          · exact List.mem_singleton.mp htoken
        exact ⟨rfl, htoken ▸ hfaulty, fault, hsame.trans hfault, hfault⟩
      · cases htoken

end ListAction

namespace Machine
open Outcome Shape Statement Text
variable {config : Config} {m : Machine} {object name argument target : Text} {items : List Value}
  {action : ListAction}

theorem isName_of_ofName? (h : ListAction.ofName? name = some action) : IsName name := by
  unfold ListAction.ofName? at h
  split_ifs at h with happend hpop hsort hremove
  · exact ⟨'a', _, happend, by decide, by decide +kernel⟩
  · exact ⟨'p', _, hpop, by decide, by decide +kernel⟩
  · exact ⟨'s', _, hsort, by decide, by decide +kernel⟩
  · exact ⟨'r', _, hremove, by decide, by decide +kernel⟩

theorem closeDefinition_of_top (h : m.pending = none) : m.closeDefinition = m := by
  rw [closeDefinition, h]

/-- What the statement does. -/
theorem execute_callOn (hm : m.pending = none) (hobject : IsName object) (hitems : m.memory.list? object = some items)
    (hname : ListAction.ofName? name = some action) (hline : '\n' ∉ callOn object name argument)
    (hcall : Uncommented config.marker (callOn object name argument)) :
    execute config (callOn object name argument) m =
      (action.apply items (trim argument) m.memory).map fun changed => m.bind object (.list changed) := by
  unfold execute executeWith
  rw [ofLine_callOn hobject (isName_of_ofName? hname) hline hcall]
  simp only [perform, callMethod, closeDefinition_of_top hm, hname, hitems]
  rfl

theorem listCall?_callOn (hobject : IsName object) (hitems : m.memory.list? object = some items)
    (hname : ListAction.ofName? name = some action) (haction : action = .append ∨ action = .pop)
    (hline : '\n' ∉ callOn object name argument) :
    listCall? m.memory (callOn object name argument) = some (object, items, action, argument) := by
  have hparts := parts_of_method hline (decomposes_callOn hobject (isName_of_ofName? hname) argument)
  rcases haction with rfl | rfl <;> simp [listCall?, hparts, hitems, hname]

/-- What the assignment does: it changes the list first, and then keeps the result. -/
theorem execute_assigning (hm : m.pending = none) (hobject : IsName object) (htarget : IsName target)
    (hitems : m.memory.list? object = some items) (hname : ListAction.ofName? name = some action)
    (haction : action = .append ∨ action = .pop)
    (hline : '\n' ∉ assigning target (callOn object name argument))
    (h : Uncommented config.marker (assigning target (callOn object name argument))) :
    execute config (assigning target (callOn object name argument)) m =
      (action.apply items argument m.memory).map fun changed =>
        (m.bind object (.list changed)).bind target (if action = .pop then lastItem items else .undefined) := by
  unfold execute executeWith
  rw [ofLine_assigning htarget (trim_callOn hobject name argument) (by simp [callOn]) hline h]
  simp only [perform, assign, closeDefinition_of_top hm,
    listCall?_callOn hobject hitems hname haction (not_mem_callOn hline)]
  rfl

/-- A list call as a statement and the same call in an assignment change nothing but the list and,
in the assignment, the target, which keeps the item that was taken off or nothing. They fail together,
and only if the argument of an append cannot be resolved. Otherwise they leave the same list, unless the
argument of an append is blank and not empty: then the assignment alone appends something. -/
theorem list_calls_agree_iff {config : Config} {m : Machine} (hm : m.pending = none) {object target : Text}
    (hobject : IsName object) (htarget : IsName target) (hne : target ≠ object) {items : List Value}
    (hitems : m.memory.list? object = some items) {name : Text} {action : ListAction}
    (hname : ListAction.ofName? name = some action) (haction : action = .append ∨ action = .pop)
    {argument : Text} (hargument : '\n' ∉ argument)
    (hcall : Uncommented config.marker (callOn object name argument))
    (hassigning : Uncommented config.marker (assigning target (callOn object name argument))) :
    (action = .append ∧ Literal.Faulty argument ∧
      ∃ fault, execute config (callOn object name argument) m = .error fault ∧
        execute config (assigning target (callOn object name argument)) m = .error fault) ∨
    ∃ stated assigned, execute config (callOn object name argument) m = .ok stated ∧
      execute config (assigning target (callOn object name argument)) m = .ok assigned ∧
      stated = { m with memory := stated.memory } ∧ assigned = { m with memory := assigned.memory } ∧
      (∀ other, other ≠ object → Fields.get? stated.memory other = Fields.get? m.memory other) ∧
      (∀ other, other ≠ object → other ≠ target →
        Fields.get? assigned.memory other = Fields.get? m.memory other) ∧
      Fields.get? assigned.memory target = some (if action = .pop then lastItem items else .undefined) ∧
      (∃ left, stated.memory.list? object = some left) ∧
      (Fields.get? stated.memory object = Fields.get? assigned.memory object ↔
        ¬ (action = .append ∧ argument ≠ [] ∧ trim argument = [])) := by
  have hline : '\n' ∉ assigning target (callOn object name argument) := by
    have hnone : ∀ {n : Text}, IsName n → '\n' ∉ n := not_mem_of_isName (by decide) (by decide)
    simp [assigning, callOn, hnone htarget, hnone hobject, hnone (isName_of_ofName? hname), hargument]
  rw [execute_callOn hm hobject hitems hname (not_mem_callOn hline) hcall,
    execute_assigning hm hobject htarget hitems hname haction hline hassigning]
  rcases ListAction.apply_trim_cases items argument m.memory haction with
    ⟨happend, hfaulty, fault, hstated, hassigned⟩ | ⟨stated, assigned, hstated, hassigned, hsame⟩
  · rw [hstated, hassigned]
    exact Or.inl ⟨happend, hfaulty, fault, rfl, rfl⟩
  · rw [hstated, hassigned]
    refine Or.inr ⟨_, _, rfl, rfl, rfl, rfl, ?_, ?_, ?_, ?_, ?_⟩
    · intro other hother
      exact get?_bind_of_ne hother _
    · intro other hother htarget
      rw [get?_bind_of_ne htarget, get?_bind_of_ne hother]
    · exact Fields.get?_assign_self _ _ _
    · exact ⟨stated, by simp [Memory.list?, bind, Memory.bind, Fields.get?_assign_self, Value.items?]⟩
    · rw [get?_bind_of_ne (Ne.symm hne)]
      simp only [bind, Memory.bind, Fields.get?_assign_self, Option.some.injEq, Value.list.injEq]
      exact hsame

/-- A machine that has a list of two numbers. -/
def listed : Machine := { memory := [("xs".toList, .list [.number .zero, .number .one])] }

/-- A list that is appended to itself, with blanks around the argument. -/
theorem list_calls_agree_iff_padded :
    listed.pending = none ∧ '\n' ∉ " xs ".toList ∧
    ∃ stated assigned, execute {} (callOn "xs".toList "append".toList " xs ".toList) listed = .ok stated ∧
      execute {} (assigning "r".toList (callOn "xs".toList "append".toList " xs ".toList)) listed = .ok assigned ∧
      Fields.get? stated.memory "xs".toList = Fields.get? assigned.memory "xs".toList ∧
      Fields.get? assigned.memory "r".toList = some .undefined := by
  have hobject : IsName "xs".toList := ⟨'x', ['s'], by decide +kernel, by decide, by decide +kernel⟩
  have htarget : IsName "r".toList := ⟨'r', [], by decide +kernel, by decide, by decide +kernel⟩
  have hargument : '\n' ∉ " xs ".toList := by decide +kernel
  have hresolved : ¬ Literal.Faulty " xs ".toList :=
    fun hfaulty => absurd hfaulty.1 (by decide +kernel)
  have hpadded : ¬ (ListAction.append = .append ∧ " xs ".toList ≠ [] ∧ trim " xs ".toList = []) := by
    decide +kernel
  have hcall : Uncommented (Config.marker {}) (callOn "xs".toList "append".toList " xs ".toList) := by decide +kernel
  have hassigning : Uncommented (Config.marker {})
      (assigning "r".toList (callOn "xs".toList "append".toList " xs ".toList)) := by decide +kernel
  have hitems : listed.memory.list? "xs".toList = some [.number .zero, .number .one] := by decide +kernel
  have hname : ListAction.ofName? "append".toList = some .append := by decide +kernel
  refine ⟨rfl, hargument, ?_⟩
  rcases list_calls_agree_iff rfl hobject htarget (by decide +kernel) hitems hname (Or.inl rfl) hargument
    hcall hassigning
    with ⟨-, hfaulty, -⟩ | ⟨stated, assigned, hstated, hassigned, -, -, -, -, hkept, -, hsame⟩
  · exact absurd hfaulty hresolved
  · exact ⟨stated, assigned, hstated, hassigned, hsame.mpr hpadded, hkept⟩

/-- An assignment that appends where the statement does not. -/
theorem blank_argument_appended :
    listed.pending = none ∧ Uncommented ['#'] "xs.append( )".toList ∧
    Uncommented ['#'] "r = xs.append( )".toList ∧
    ∃ stated assigned, execute {} "xs.append( )".toList listed = .ok stated ∧
      execute {} "r = xs.append( )".toList listed = .ok assigned ∧
      stated.memory.list? "xs".toList = some [.number .zero, .number .one] ∧
      assigned.memory.list? "xs".toList = some [.number .zero, .number .one, .text []] ∧
      stated.memory.list? "xs".toList ≠ assigned.memory.list? "xs".toList := by
  have hstated := Option.eq_some_of_isSome
    (o := (execute {} "xs.append( )".toList listed).toOption) (by decide +kernel)
  have hassigned := Option.eq_some_of_isSome
    (o := (execute {} "r = xs.append( )".toList listed).toOption) (by decide +kernel)
  exact ⟨rfl, by decide +kernel, by decide +kernel, _, _, eq_ok_of_toOption hstated, eq_ok_of_toOption hassigned,
    by decide +kernel, by decide +kernel, by decide +kernel⟩

end Machine

end SnippetTutor
