import SnippetTutor.Proofs.Json.Numeral

/-! # The grammar of documents

The standard's grammar of JSON texts, with what each text stands for. A text whose strings hold a
single surrogate is a document, but stands for nothing, because no text has such a character. The
grammar can be widened by the three names of numbers that are not finite, which the standard does
not have.
-/
namespace SnippetTutor.Json

def Spaces (t : Text) : Prop := ∀ c ∈ t, isSpace c = true

theorem spaces_nil : Spaces [] := List.forall_mem_nil _

/-- The inside of a string, with the code points that it holds. An escape by four hex digits is one
UTF-16 unit. -/
inductive Body : Text → List Nat → Prop
  | nil : Body [] []
  | plain {c : Char} {t : Text} {points : List Nat} (hquote : c ≠ '"') (hslash : c ≠ '\\') (h : 0x20 ≤ c.toNat)
      (rest : Body t points) : Body (c :: t) (c.toNat :: points)
  | escape {c e : Char} {t : Text} {points : List Nat} (h : simpleEscape? c = some e) (rest : Body t points) :
      Body ('\\' :: c :: t) (e.toNat :: points)
  | unit {digits t : Text} {values points : List Nat} (h : digits.map Text.hexDigit? = values.map some)
      (hlength : values.length = 4) (rest : Body t points) :
      Body ('\\' :: 'u' :: (digits ++ t)) (Text.numberOf 16 values :: points)

def quotedBody (t : Text) : Text := '"' :: (t ++ ['"'])

/-- The parts of a document, with what they stand for, or none if that does not exist. Items and
fields are those that stand between the brackets of an array or object that is not empty. -/
inductive Part
  | value (denoted : Option Json)
  | items (denoted : Option (List Json))
  | field (denoted : Option (Text × Json))
  | fields (denoted : Option (List (Text × Json)))

/-- The first of two denotations before those of the rest. -/
def consDenoted {α : Type} (first : Option α) (rest : Option (List α)) : Option (List α) :=
  first.bind fun x => rest.map (x :: ·)

inductive Written (names : Bool) : Part → Text → Prop
  | null : Written names (.value (some .null)) "null".toList
  | bool (b : Bool) : Written names (.value (some (.bool b))) (if b then "true".toList else "false".toList)
  | numeral (n : Numeral) : Written names (.value (some n.value)) n.text
  | nan (h : names = true) : Written names (.value (some (.number .nan))) "NaN".toList
  | infinite (h : names = true) (negative : Bool) :
      Written names (.value (some (.number (.infinite negative))))
        ((if negative then ['-'] else []) ++ "Infinity".toList)
  | text {t : Text} {points : List Nat} (h : Body t points) :
      Written names (.value ((charsOf points).map .text)) (quotedBody t)
  | emptyArray {inside : Text} (h : Spaces inside) :
      Written names (.value (some (.array []))) ('[' :: (inside ++ [']']))
  | array {items : Option (List Json)} {t : Text} (h : Written names (.items items) t) :
      Written names (.value (items.map .array)) ('[' :: (t ++ [']']))
  | emptyObject {inside : Text} (h : Spaces inside) :
      Written names (.value (some (.object []))) ('\x7b' :: (inside ++ ['\x7d']))
  | object {fields : Option (List (Text × Json))} {t : Text} (h : Written names (.fields fields) t) :
      Written names (.value (fields.map fun fs => .object (Fields.ofList fs))) ('\x7b' :: (t ++ ['\x7d']))
  | lastItem {item : Option Json} {before t after : Text} (hbefore : Spaces before)
      (h : Written names (.value item) t) (hafter : Spaces after) :
      Written names (.items (consDenoted item (some []))) (before ++ (t ++ after))
  | item {item : Option Json} {items : Option (List Json)} {before t after more : Text} (hbefore : Spaces before)
      (h : Written names (.value item) t) (hafter : Spaces after) (hmore : Written names (.items items) more) :
      Written names (.items (consDenoted item items)) (before ++ (t ++ (after ++ ',' :: more)))
  | field {key : Text} {points : List Nat} {value : Option Json} {before t after : Text} (hkey : Body key points)
      (hbefore : Spaces before) (hafter : Spaces after) (h : Written names (.value value) t) :
      Written names (.field ((charsOf points).bind fun k => value.map fun v => (k, v)))
        (quotedBody key ++ (before ++ ':' :: (after ++ t)))
  | lastField {field : Option (Text × Json)} {before t after : Text} (hbefore : Spaces before)
      (h : Written names (.field field) t) (hafter : Spaces after) :
      Written names (.fields (consDenoted field (some []))) (before ++ (t ++ after))
  | fields {field : Option (Text × Json)} {fields : Option (List (Text × Json))} {before t after more : Text}
      (hbefore : Spaces before) (h : Written names (.field field) t) (hafter : Spaces after)
      (hmore : Written names (.fields fields) more) :
      Written names (.fields (consDenoted field fields)) (before ++ (t ++ (after ++ ',' :: more)))

/-- A text that is one value with white space around it. -/
def Document (names : Bool) (t : Text) (denoted : Option Json) : Prop :=
  ∃ before body after, t = before ++ (body ++ after) ∧ Spaces before ∧ Spaces after ∧
    Written names (.value denoted) body

/-- What the standard allows is allowed with the names, too. -/
theorem Written.widened {names : Bool} {p : Part} {t : Text} (h : Written names p t) : Written true p t := by
  induction h with
  | null => exact .null
  | bool b => exact .bool b
  | numeral n => exact .numeral n
  | nan => exact .nan rfl
  | infinite _ negative => exact .infinite rfl negative
  | text h => exact .text h
  | emptyArray h => exact .emptyArray h
  | array _ ih => exact .array ih
  | emptyObject h => exact .emptyObject h
  | object _ ih => exact .object ih
  | lastItem hbefore _ hafter ih => exact .lastItem hbefore ih hafter
  | item hbefore _ hafter _ ih ihmore => exact .item hbefore ih hafter ihmore
  | field hkey hbefore hafter _ ih => exact .field hkey hbefore hafter ih
  | lastField hbefore _ hafter ih => exact .lastField hbefore ih hafter
  | fields hbefore _ hafter _ ih ihmore => exact .fields hbefore ih hafter ihmore

end SnippetTutor.Json
