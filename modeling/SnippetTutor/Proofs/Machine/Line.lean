import SnippetTutor.Proofs.Machine.Convention
import SnippetTutor.Proofs.Machine.Print

/-! # Lines as they are written

A line can be written out from its parts: an assignment, a print statement, a call. Each of them completes
the definition that is open, if there is one, before it is carried out. No comment is cut from a line whose
only quotes are those of a literal and whose marker stands in the literal alone.
-/
namespace SnippetTutor

section Comments
open Literal Text
variable {c q : Char} {marker s before after name : Text}

/-- Neither a quote nor the letter, and so nothing at which a comment or a literal starts. -/
def Bare (c : Char) (t : Text) : Prop := ∀ d ∈ t, isQuote d = false ∧ d ≠ c

instance (c : Char) (t : Text) : Decidable (Bare c t) := inferInstanceAs (Decidable (∀ d ∈ t, _))

theorem bare_of_isName (hstart : isNameStart c = false) (hword : isWordChar c = false) (h : IsName name) :
    Bare c name := by
  have hnone : ∀ {d}, isNameStart d = false → isWordChar d = false → d ∉ name :=
    fun hstart hword => not_mem_of_isName hstart hword h
  intro d hd
  refine ⟨?_, ne_of_mem_of_not_mem hd (hnone hstart hword)⟩
  have hsingle : d ≠ '\'' := ne_of_mem_of_not_mem hd (hnone (by decide) (by decide +kernel))
  have hdouble : d ≠ '"' := ne_of_mem_of_not_mem hd (hnone (by decide) (by decide +kernel))
  simp [isQuote, hsingle, hdouble]

theorem Bare.append {t : Text} (hs : Bare c s) (ht : Bare c t) : Bare c (s ++ t) :=
  List.forall_mem_append.mpr ⟨hs, ht⟩

theorem beforeMarker_of_bare (h : Bare c s) (marker : Text) : beforeMarker (c :: marker) none s = none := by
  have happend := beforeMarker_append h marker []
  rwa [List.append_nil] at happend

/-- A literal may hold the marker. -/
theorem uncommented_around (h : Quotable q s) (hne : before ≠ []) (hbefore : Bare c before) (hafter : Bare c after)
    (marker : Text) : Uncommented (c :: marker) (before ++ (inQuotes q s ++ after)) := by
  constructor
  · obtain ⟨d, rest, rfl⟩ := List.exists_cons_of_ne_nil hne
    rintro ⟨more, hmore⟩
    exact (hbefore d List.mem_cons_self).2 (List.cons.inj hmore).1.symm
  · rw [uncomment, beforeMarker_append hbefore, beforeMarker_inQuotes h, beforeMarker_of_bare hafter]
    rfl

end Comments

namespace Statement
open Shape Text
variable {marker name argument target expr : Text}

/-- The text of a call of a function. -/
def calling (name argument : Text) : Text := name ++ '(' :: (argument ++ [')'])

theorem trim_calling (hname : IsName name) (argument : Text) :
    trim (calling name argument) = calling name argument :=
  trim_of_isName hname ('(' :: argument)

theorem encloses_argument (argument : Text) : Encloses argument ('(' :: (argument ++ [')'])) :=
  ⟨[], [], blanks_nil, blanks_nil, rfl⟩

theorem not_mem_calling {d : Char} (hname : d ∉ name) (hargument : d ∉ argument) (hopen : d ≠ '(') (hclose : d ≠ ')') :
    d ∉ calling name argument := by
  simp [calling, hname, hargument, hopen, hclose]

theorem feed_not_mem_name (h : IsName name) : '\n' ∉ name := not_mem_of_isName (by decide) (by decide) h

theorem ofLine_print (hargument : '\n' ∉ argument) (h : Uncommented marker (calling "print".toList argument)) :
    ofLine marker (calling "print".toList argument) =
      .shaped (calling "print".toList argument) (.print (trim argument)) := by
  have hline : '\n' ∉ calling "print".toList argument :=
    not_mem_calling (by decide) hargument (by decide) (by decide)
  have hprint : Decomposes (calling "print".toList argument) (.print argument) :=
    .print (encloses_argument argument) rfl
  rw [ofLine_of_uncommented (trim_calling isName_print argument) (by simp [calling]) h, ofText,
    ofText_of_print hline hprint]

theorem ofLine_calling (hname : IsName name) (hother : name ≠ "print".toList) (hargument : '\n' ∉ argument)
    (h : Uncommented marker (calling name argument)) :
    ofLine marker (calling name argument) = .shaped (calling name argument) (.call name (trim argument)) := by
  have hline : '\n' ∉ calling name argument :=
    not_mem_calling (feed_not_mem_name hname) hargument (by decide) (by decide)
  have hcall : Decomposes (calling name argument) (.call name argument) :=
    .call hname (encloses_argument argument) rfl
  rw [ofLine_of_uncommented (trim_calling hname argument) (by simp [calling]) h, ofText,
    ofText_of_call hline hcall hother]

/-- What does not start with a name is no call of a method, and neither is a name alone. -/
theorem methodParts?_of_not_isNameStart {c : Char} {rest : Text} (h : isNameStart c = false) :
    methodParts? (c :: rest) = none := by
  simp [methodParts?, nameAt?, h]

theorem methodParts?_of_isName (h : IsName name) : methodParts? name = none := by
  have hname : nameAt? name = some (name, []) := nameAt?_eq_some_iff.mpr ⟨h, by simp, by simp⟩
  simp [methodParts?, hname]

end Statement

namespace Machine
open Outcome Statement Text
variable {config : Config} {m : Machine} {name argument target expr : Text} {f : Function}

theorem execute_print (hargument : '\n' ∉ argument)
    (h : Uncommented config.marker (calling "print".toList argument)) :
    execute config (calling "print".toList argument) m =
      .ok (m.closeDefinition.emit (Print.text m.closeDefinition.memory (trim argument))) := by
  unfold execute executeWith
  rw [ofLine_print hargument h]
  rfl

theorem execute_calling (hname : IsName name) (hother : name ≠ "print".toList) (hargument : '\n' ∉ argument)
    (hf : m.closeDefinition.memory.function? name = some f) (h : Uncommented config.marker (calling name argument)) :
    execute config (calling name argument) m = call config f (trim argument) m.closeDefinition := by
  unfold execute executeWith
  rw [ofLine_calling hname hother hargument h]
  simp only [perform, hf]

theorem assign_of_coerce (hparts : Shape.methodParts? expr = none) (m : Machine) (target : Text) :
    m.assign target expr = (Literal.coerce m.memory expr).map (m.bind target) := by
  have hlist : listCall? m.memory expr = none := by simp [listCall?, hparts]
  rw [assign, hlist]
  cases Literal.coerce m.memory expr <;> rfl

/-- An assignment of anything but a call of a method. -/
theorem execute_assigning_token (htarget : IsName target) (hexpr : trim expr = expr) (hne : expr ≠ [])
    (hline : '\n' ∉ expr) (hparts : Shape.methodParts? expr = none)
    (h : Uncommented config.marker (assigning target expr)) :
    execute config (assigning target expr) m =
      (Literal.coerce m.closeDefinition.memory expr).map (m.closeDefinition.bind target) := by
  have hassigning : '\n' ∉ assigning target expr := by simp [assigning, feed_not_mem_name htarget, hline]
  unfold execute executeWith
  rw [ofLine_assigning htarget hexpr hne hassigning h]
  exact assign_of_coerce hparts _ _

end Machine

end SnippetTutor
