import Mathlib.Data.Char
import SnippetTutor.Proofs.Machine.Collection
import SnippetTutor.Proofs.Machine.Targets
import SnippetTutor.Proofs.Outcome
import SnippetTutor.Proofs.StableSort

/-! # Sorting a list

The items of a list are arranged by the texts that a print statement would show of them, compared code
point by code point. Values of different kinds can be displayed alike, a number and the text of its digits
for example, and these keep the order that they had.
That items of any depth are sorted is said for a stack without bounds (`Fault`).
-/
namespace SnippetTutor

theorem Memory.get?_of_list? {memory : Memory} {name : Text} {items : List Value}
    (h : memory.list? name = some items) : Fields.get? memory name = some (.list items) := by
  obtain ⟨value, hvalue, hlist⟩ := Option.bind_eq_some_iff.mp h
  cases value with
  | list => rw [hvalue, Option.some.inj hlist]
  | number | text | bool | record | function | undefined => cases hlist

namespace ListAction
variable {items left : List Value}

theorem stablySorted_display_iff : StablySorted Value.display items left ↔ left = sorted items :=
  stablySorted_iff fun _ _ => decide_eq_true_iff

theorem stablySorted_sorted (items : List Value) : StablySorted Value.display items (sorted items) :=
  stablySorted_display_iff.mpr rfl

theorem sorted_sorted (items : List Value) : sorted (sorted items) = sorted items :=
  (stablySorted_display_iff.mp (stablySorted_sorted items).self).symm

end ListAction

namespace Machine
open Outcome
variable {config : Config} {caller : Caller} {marker line object name xs : Text} {m : Machine} {items : List Value}

/-- The line is a call of this method on the object, with any arguments, blanks around it and a comment. -/
def CallsMethod (marker line object name : Text) : Prop :=
  isSkippable marker line = false ∧
    ∃ arguments, Shape.ofText (uncomment marker (Text.trim line)) = .method object name arguments

theorem performed?_of_callsMethod (hm : m.pending = none) (h : CallsMethod marker line object name) :
    ∃ arguments, performed? marker line m = some (.method object name arguments, m) := by
  obtain ⟨hs, arguments, hshape⟩ := h
  exact ⟨arguments, by rw [performed?_of_top hm hs, hshape]⟩

theorem bind_of_get? {value : Value} (h : Fields.get? m.memory name = some value) : m.bind name value = m := by
  rw [bind, Memory.bind, Fields.assign_of_get? h]

/-- The argument of a sort is not read. -/
theorem perform_sort (hitems : m.memory.list? xs = some items) (argument : Text) :
    perform caller (.method xs "sort".toList argument) m = .ok (m.bind xs (.list (ListAction.sorted items))) := by
  have hname : ListAction.ofName? "sort".toList = some .sort := rfl
  simp only [perform, callMethod, hname, hitems]
  rfl

theorem execute_sort (hm : m.pending = none) (hitems : m.memory.list? xs = some items)
    (hline : CallsMethod config.marker line xs "sort".toList) :
    execute config line m = .ok (m.bind xs (.list (ListAction.sorted items))) := by
  obtain ⟨argument, hperformed⟩ := performed?_of_callsMethod hm hline
  rw [execute, executeWith_of_performed hperformed, perform_sort hitems]

/-- Sorting a list prints nothing and changes no variable but the list, whatever the argument is. The list
becomes the one stable arrangement of its items by what is displayed of them: no item is added or lost, the
displayed texts never decrease, and items that are displayed alike keep their order. Sorted again, it stays
as it is. -/
theorem sort_arranges_by_display (config : Config) {m : Machine} (hm : m.pending = none) {xs : Text}
    {items : List Value} (hitems : m.memory.list? xs = some items) :
    ∃ left n, StablySorted Value.display items left ∧
      (∀ other, StablySorted Value.display items other → other = left) ∧
      n = { m with memory := n.memory } ∧ Fields.get? n.memory xs = some (.list left) ∧
      (∀ name, name ≠ xs → Fields.get? n.memory name = Fields.get? m.memory name) ∧
      Fields.keys n.memory = Fields.keys m.memory ∧
      (∀ caller argument, perform caller (.method xs "sort".toList argument) m = .ok n ∧
        perform caller (.method xs "sort".toList argument) n = .ok n) ∧
      ∀ line, CallsMethod config.marker line xs "sort".toList →
        execute config line m = .ok n ∧ execute config line n = .ok n := by
  let n := m.bind xs (.list (ListAction.sorted items))
  have hbound : Fields.get? n.memory xs = some (.list (ListAction.sorted items)) := Fields.get?_assign_self _ _ _
  have htop : n.pending = none := hm
  have hsorted : n.memory.list? xs = some (ListAction.sorted items) := by
    rw [Memory.list?, hbound]
    rfl
  have hagain : n.bind xs (.list (ListAction.sorted (ListAction.sorted items))) = n := by
    rw [ListAction.sorted_sorted]
    exact bind_of_get? hbound
  have hknown : xs ∈ Fields.keys m.memory := by
    rw [← Fields.get?_isSome_iff, Memory.get?_of_list? hitems]
    rfl
  refine ⟨ListAction.sorted items, n, ListAction.stablySorted_sorted items, ?_, rfl, hbound, ?_, ?_, ?_, ?_⟩
  · exact fun other hother => ListAction.stablySorted_display_iff.mp hother
  · exact fun name hname => get?_bind_of_ne hname _
  · exact (Fields.keys_assign m.memory xs _).trans (if_pos hknown)
  · intro caller argument
    exact ⟨perform_sort hitems argument, (perform_sort hsorted argument).trans (congrArg Except.ok hagain)⟩
  · intro line hline
    exact ⟨execute_sort hm hitems hline, (execute_sort htop hsorted hline).trans (congrArg Except.ok hagain)⟩

/-- Values of every kind, some of which are displayed alike. -/
def assorted : List Value :=
  [.text "b".toList, .list [.text "1".toList], .text "None".toList, .bool true, .undefined, .text "10".toList,
    .function ⟨"f".toList, [], []⟩, .text "1".toList, .number .one, .record [("k".toList, .list [.number .zero])]]

/-- The same values by what is displayed of them: `1` twice, `10`, the function, `None` twice, `True`, the
list, `b` and the record. -/
def arranged : List Value :=
  [.text "1".toList, .number .one, .text "10".toList, .function ⟨"f".toList, [], []⟩, .text "None".toList, .undefined,
    .bool true, .list [.text "1".toList], .text "b".toList, .record [("k".toList, .list [.number .zero])]]

/-- A machine inside a call that has printed something, with such a list between two other variables. -/
def unarranged : Machine where
  memory := [("n".toList, .number .one), ("xs".toList, .list assorted), ("none".toList, .undefined)]
  output := ["1".toList]
  depth := 1
  calls := 1

/-- An indented sort with an argument that holds the marker, and with a comment. -/
theorem sort_arranges_by_display_assorted :
    unarranged.pending = none ∧ unarranged.memory.list? "xs".toList = some assorted ∧
    CallsMethod ['#'] "\txs.sort( reverse = '#' )  # by text".toList "xs".toList "sort".toList ∧
    ∃ n, execute {} "\txs.sort( reverse = '#' )  # by text".toList unarranged = .ok n ∧
      n.output = ["1".toList] ∧ Fields.get? n.memory "none".toList = some .undefined ∧
      Fields.get? n.memory "xs".toList = some (.list arranged) ∧
      execute {} "\txs.sort( reverse = '#' )  # by text".toList n = .ok n := by
  have htop : unarranged.pending = none := rfl
  have hitems : unarranged.memory.list? "xs".toList = some assorted := by decide +kernel
  have hline : CallsMethod ['#'] "\txs.sort( reverse = '#' )  # by text".toList "xs".toList "sort".toList :=
    ⟨by decide +kernel, "reverse = '#'".toList, by decide +kernel⟩
  obtain ⟨left, n, -, hunique, hframe, hxs, hothers, -, -, hlines⟩ := sort_arranges_by_display {} htop hitems
  obtain ⟨hran, hagain⟩ := hlines _ hline
  have hleft : arranged = left := hunique arranged (ListAction.stablySorted_display_iff.mpr (by decide +kernel))
  refine ⟨htop, hitems, hline, n, hran, ?_, ?_, ?_, hagain⟩
  · rw [hframe]
    rfl
  · exact (hothers _ (by decide)).trans rfl
  · rw [hxs, hleft]

end Machine

end SnippetTutor
