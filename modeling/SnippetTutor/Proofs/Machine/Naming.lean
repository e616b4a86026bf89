import SnippetTutor.Proofs.Machine.Line

/-! # Names that are printed and names that are assigned

A print statement looks for a variable before it looks for a keyword, and the right-hand side of an
assignment is looked up the other way round. A variable can be called like a keyword, and then the two
read the same name differently.
That statements have results is said for a stack without bounds (`Fault`).
-/
namespace SnippetTutor

namespace Literal
open Text
variable {x : Text} {value : Value}

/-- The value of a keyword is shown as the keyword. -/
theorem display_of_keyword? (h : keyword? x = some value) : value.display = x := by
  unfold keyword? at h
  split_ifs at h with htrue hfalse hnone
  · cases h
    exact htrue.symm
  · cases h
    exact hfalse.symm
  · cases h
    exact hnone.symm

/-- What the right-hand side of an assignment makes of a name that stands for a value. -/
def readAs (x : Text) (value : Value) : Value := (keyword? x).getD value

theorem coerce_of_bound {memory : Memory} (hx : IsName x) (hvalue : Fields.get? memory x = some value) :
    coerce memory x = .ok (readAs x value) := by
  rw [coerce_of_isName hx, hvalue, Option.getD_some, readAs]

theorem readAs_of_not_keyword (h : x ∉ keywords) (value : Value) : readAs x value = value := by
  rw [readAs, keyword?_eq_none_iff.mpr h, Option.getD_none]

theorem display_readAs_of_keyword (h : x ∈ keywords) (value : Value) : (readAs x value).display = x := by
  cases hkeyword : keyword? x with
  | none => exact absurd h (keyword?_eq_none_iff.mp hkeyword)
  | some fixed => rw [readAs, hkeyword, Option.getD_some, display_of_keyword? hkeyword]

theorem display_readAs_iff (x : Text) (value : Value) :
    value.display = (readAs x value).display ↔ x ∉ keywords ∨ value.display = x := by
  by_cases h : x ∈ keywords
  · rw [display_readAs_of_keyword h]
    simp [h]
  · simp [readAs_of_not_keyword h, h]

end Literal

namespace Machine
open Literal Outcome Statement Text
variable {config : Config} {m : Machine} {x y : Text} {value : Value}

theorem exists_value_closeDefinition (h : x ∈ Fields.keys m.memory) :
    ∃ value, Fields.get? m.closeDefinition.memory x = some value := by
  have hkeys : x ∈ Fields.keys m.closeDefinition.memory := by
    unfold closeDefinition
    split
    · exact h
    · exact (Fields.keys_prefix_assign m.memory _ _).mem h
  exact Option.isSome_iff_exists.mp ((Fields.get?_isSome_iff _ _).mpr hkeys)

theorem execute_print_name (hx : IsName x) (hvalue : Fields.get? m.closeDefinition.memory x = some value)
    (h : Uncommented config.marker (calling "print".toList x)) :
    execute config (calling "print".toList x) m = .ok (m.closeDefinition.emit value.display) := by
  rw [execute_print (feed_not_mem_name hx) h, trim_name hx, Print.text_of_isName hx hvalue]

theorem execute_assigning_name (hx : IsName x) (hy : IsName y)
    (hvalue : Fields.get? m.closeDefinition.memory x = some value) (h : Uncommented config.marker (assigning y x)) :
    execute config (assigning y x) m = .ok (m.closeDefinition.bind y (readAs x value)) := by
  rw [execute_assigning_token hy (trim_name hx) (ne_nil_of_isName hx) (feed_not_mem_name hx)
    (methodParts?_of_isName hx) h, coerce_of_bound hx hvalue]
  rfl

/-- A print statement shows the variable that a name stands for, and an assignment keeps it, unless the
name is a keyword: the assignment then keeps the value of the keyword, whatever the variable holds. So
what is printed of a name and what is printed of a variable to which the name was assigned are the same
for all names but the keywords, and for a keyword only if its variable is shown as the keyword. -/
theorem name_read_alike_iff {x : Text} (hx : IsName x) :
    (∀ memory value, Fields.get? memory x = some value →
      Print.text memory x = value.display ∧
      ∃ kept, coerce memory x = .ok kept ∧ (x ∉ keywords → kept = value) ∧ (x ∈ keywords → kept.display = x) ∧
        (Print.text memory x = kept.display ↔ x ∉ keywords ∨ value.display = x)) ∧
    ∀ (config : Config) (m : Machine) (y : Text), IsName y → x ∈ Fields.keys m.memory →
      Uncommented config.marker (calling "print".toList x) → Uncommented config.marker (assigning y x) →
      Uncommented config.marker (calling "print".toList y) →
      ∃ value assigned shown, Fields.get? m.closeDefinition.memory x = some value ∧
        execute config (calling "print".toList x) m = .ok (m.closeDefinition.emit value.display) ∧
        execute config (assigning y x) m = .ok assigned ∧ assigned.output = m.closeDefinition.output ∧
        execute config (calling "print".toList y) assigned = .ok (assigned.emit shown) ∧
        (value.display = shown ↔ x ∉ keywords ∨ value.display = x) := by
  constructor
  · intro memory value hvalue
    have hprint := Print.text_of_isName hx hvalue
    refine ⟨hprint, readAs x value, coerce_of_bound hx hvalue, fun h => readAs_of_not_keyword h value,
      fun h => display_readAs_of_keyword h value, ?_⟩
    rw [hprint]
    exact display_readAs_iff x value
  · intro config m y hy hbound hprint hassign hshow
    obtain ⟨value, hvalue⟩ := exists_value_closeDefinition hbound
    -- The first line has completed the definition, so that the last one finds none.
    have hclosed : (m.closeDefinition.bind y (readAs x value)).pending = none := closeDefinition_pending m
    have hkept : Fields.get? (m.closeDefinition.bind y (readAs x value)).closeDefinition.memory y =
        some (readAs x value) := by
      rw [closeDefinition_of_top hclosed]
      exact Fields.get?_assign_self _ _ _
    have hshown := execute_print_name hy hkept hshow
    rw [closeDefinition_of_top hclosed] at hshown
    exact ⟨value, _, _, hvalue, execute_print_name hx hvalue hprint, execute_assigning_name hx hy hvalue hassign, rfl,
      hshown, display_readAs_iff x value⟩

/-- A machine that has a variable called like a keyword. -/
def renamed : Machine := { memory := [("True".toList, .bool false)] }

theorem reachable_renamed : Reachable {} renamed :=
  ⟨["True = False".toList], eq_ok_of_toOption (by decide +kernel)⟩

/-- A keyword that is a variable, which is shown otherwise. -/
theorem name_read_alike_iff_renamed :
    IsName "True".toList ∧ "True".toList ∈ Fields.keys renamed.memory ∧
    ∃ value assigned shown, Fields.get? renamed.memory "True".toList = some value ∧
      execute {} (calling "print".toList "True".toList) renamed = .ok (renamed.emit value.display) ∧
      execute {} (assigning "y".toList "True".toList) renamed = .ok assigned ∧
      execute {} (calling "print".toList "y".toList) assigned = .ok (assigned.emit shown) ∧
      value.display ≠ shown := by
  have hx : IsName "True".toList := ⟨'T', "rue".toList, by decide, by decide, by decide +kernel⟩
  have hy : IsName "y".toList := ⟨'y', [], by decide, by decide, List.forall_mem_nil _⟩
  obtain ⟨-, hlines⟩ := name_read_alike_iff hx
  obtain ⟨value, assigned, shown, hvalue, hprint, hassign, -, hshow, hsame⟩ :=
    hlines {} renamed "y".toList hy (by decide) (by decide) (by decide) (by decide)
  obtain rfl : .bool false = value := Option.some.inj hvalue
  exact ⟨hx, by decide, _, assigned, shown, rfl, hprint, hassign, hshow, fun h => absurd (hsame.mp h) (by decide)⟩

/-- The variable is printed as it is, but what is assigned from it is the keyword. -/
theorem keyword_read_in_two_ways :
    Reachable {} renamed ∧ "True".toList ∈ Fields.keys renamed.memory ∧
    Print.text renamed.memory "True".toList = "False".toList ∧
    (coerce renamed.memory "True".toList).toOption.map Value.display = some "True".toList ∧
    ∃ shown assigned printed, execute {} "print(True)".toList renamed = .ok shown ∧
      execute {} "y = True".toList renamed = .ok assigned ∧
      execute {} "print(y)".toList assigned = .ok printed ∧
      shown.output = ["False".toList] ∧ printed.output = ["True".toList] := by
  refine ⟨reachable_renamed, by decide, by decide, by decide +kernel, ?_⟩
  have hshown : (execute {} "print(True)".toList renamed).toOption = some (renamed.emit "False".toList) := by
    decide +kernel
  have hassigned : (execute {} "y = True".toList renamed).toOption = some (renamed.bind "y".toList (.bool true)) := by
    decide +kernel
  have hprinted : (execute {} "print(y)".toList (renamed.bind "y".toList (.bool true))).toOption =
      some ((renamed.bind "y".toList (.bool true)).emit "True".toList) := by decide +kernel
  exact ⟨_, _, _, eq_ok_of_toOption hshown, eq_ok_of_toOption hassigned, eq_ok_of_toOption hprinted, rfl, rfl⟩

end Machine

end SnippetTutor
