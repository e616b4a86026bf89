import SnippetTutor.Proofs.Json.Steps
import SnippetTutor.Proofs.Json.Writing

/-! # The keys of objects

Of two fields with the same key the reader keeps one. No object that it reads has a key twice,
however deep the object stands in the document.
-/
namespace SnippetTutor

namespace Fields
variable {α : Type}

theorem nodup_keys_update {fields : Fields α} (h : (keys fields).Nodup) (new : Fields α) :
    (keys (update fields new)).Nodup := by
  induction new generalizing fields with
  | nil => exact h
  | cons field rest ih => exact ih (nodup_keys_assign h field.1 field.2)

theorem nodup_keys_ofList (fields : List (Text × α)) : (keys (ofList fields)).Nodup := by
  have hnone : (keys ([] : Fields α)).Nodup := List.nodup_nil
  exact nodup_keys_update hnone fields

theorem mem_of_mem_ofList {fields : List (Text × α)} {field : Text × α} (h : field ∈ ofList fields) :
    field ∈ fields :=
  (mem_update h).resolve_right List.not_mem_nil

end Fields

namespace Json
variable {limits : Limits} {word t : Text} {items : List Json} {fields : List (Text × Json)} {j : Json}

theorem keyedItems_iff : KeyedItems items ↔ ∀ item ∈ items, item.Keyed := by
  induction items with
  | nil => simp [KeyedItems]
  | cons item rest ih => simp [KeyedItems, ih]

theorem keyedFields_iff : KeyedFields fields ↔ ∀ field ∈ fields, field.2.Keyed := by
  induction fields with
  | nil => simp [KeyedFields]
  | cons field rest ih => simp [KeyedFields, ih]

theorem keyed_array : (array items).Keyed ↔ ∀ item ∈ items, item.Keyed := keyedItems_iff

theorem keyed_object :
    (object fields).Keyed ↔ (Fields.keys fields).Nodup ∧ ∀ field ∈ fields, field.2.Keyed :=
  and_congr_right fun _ => keyedFields_iff

theorem keyed_obj {named : List (String × Json)} (hkeys : (named.map Prod.fst).Nodup)
    (h : ∀ field ∈ named, field.2.Keyed) : (obj named).Keyed := by
  refine keyed_object.mpr ⟨?_, List.forall_mem_map.mpr h⟩
  have hnames : Fields.keys (named.map fun f => (f.1.toList, f.2)) = (named.map Prod.fst).map String.toList := by
    simp [Fields.keys, Function.comp_def]
  rw [hnames]
  exact hkeys.map fun _ _ => String.toList_inj.mp

/-- No array and no object. -/
def Simple : Json → Prop
  | .array _ | .object _ => False
  | .null | .bool _ | .int _ | .number _ | .text _ => True

theorem Simple.keyed (h : j.Simple) : j.Keyed := by
  cases j with
  | array | object => cases h
  | null | bool | int | number | text => trivial

theorem simple_wordValue? (h : wordValue? limits word = some j) : j.Simple := by
  have hnumber : ∀ {v}, numberWord? limits word = some v → v.Simple := by
    intro v hv
    obtain ⟨d, -, hv⟩ := Option.bind_eq_some_iff.mp hv
    repeat' split at hv
    all_goals cases hv
    all_goals trivial
  unfold wordValue? at h
  repeat' split at h
  all_goals first | exact hnumber h | cases h
  all_goals trivial

/-! ## From tokens to the document -/

def Token.Simple : Token → Prop
  | .scalar value => value.Simple
  | .mark _ | .text _ => True

def Token.Keyed : Token → Prop
  | .scalar value => value.Keyed
  | .mark _ | .text _ => True

theorem Token.Simple.keyed {u : Token} (h : u.Simple) : u.Keyed := by
  cases u with
  | scalar value => exact Json.Simple.keyed h
  | mark | text => trivial

theorem WordTokens.simple {ts : List Token} (h : WordTokens limits word ts) : ∀ u ∈ ts, u.Simple := by
  cases h with
  | nil => exact List.forall_mem_nil _
  | scalar h => exact List.forall_mem_singleton.mpr (simple_wordValue? h)

theorem Scan.Moves.simple {s next : Scan} {c : Char} {ended : List Token} (h : s.Moves limits c ended next) :
    ∀ u ∈ ended, u.Simple := by
  cases h with
  | space hended | opening hended => exact hended.simple
  | mark hended => exact List.forall_mem_append.mpr ⟨hended.simple, List.forall_mem_singleton.mpr trivial⟩
  | closing => exact List.forall_mem_singleton.mpr trivial
  | word | slash | inside | code | escape | digit | lastDigit => exact List.forall_mem_nil _

/-- The values among the tokens are words, and no word is an array or an object. -/
theorem simple_scan {state : Scan} {ts : List Token} (h : scan limits state t = some ts) : ∀ u ∈ ts, u.Simple := by
  refine scan_induction (P := fun _ _ us => ∀ u ∈ us, u.Simple) (fun hended => hended.simple) ?_ h
  exact fun hmoves ih => List.forall_mem_append.mpr ⟨hmoves.simple, ih⟩

theorem keyed_scan {state : Scan} {ts : List Token} (h : scan limits state t = some ts) : ∀ u ∈ ts, u.Keyed :=
  fun u hu => (simple_scan h u hu).keyed

/-- What is held of an open array or object has no key twice in it. An object that is still open may
have one. -/
def Open.Keyed : Open → Prop
  | .array items => ∀ item ∈ items, item.Keyed
  | .object fields _ => ∀ field ∈ fields, field.2.Keyed

def Awaits.Keyed : Awaits → Prop
  | .key fields | .colon fields _ => ∀ field ∈ fields, field.2.Keyed
  | .separator done => done.Keyed
  | .value | .firstItem | .firstKey => True

structure Reading.Keyed (r : Reading) : Prop where
  awaits : r.awaits.Keyed
  stack : ∀ o ∈ r.stack, o.Keyed

theorem StartsValue.keyed {u : Token} {awaits : Awaits} (h : StartsValue u awaits) (hu : u.Keyed) : awaits.Keyed := by
  cases h with
  | scalar => exact hu
  | text | array | object => trivial

namespace Reading

/-- Only what becomes an object could hold a key twice, and there the later field is kept. -/
theorem Keyed.moves {r s : Reading} {u : Token} (hr : r.Keyed) (hu : u.Keyed) (h : r.Moves limits u s) :
    s.Keyed := by
  obtain ⟨hawaits, hstack⟩ := hr
  cases h with
  | value hstarts => exact ⟨hstarts.keyed hu, hstack⟩
  | emptyArray => exact ⟨trivial, hstack⟩
  | firstItem _ hstarts =>
    have hfirst : Open.Keyed (.array []) := fun _ hmem => absurd hmem List.not_mem_nil
    exact ⟨hstarts.keyed hu, List.forall_mem_cons.mpr ⟨hfirst, hstack⟩⟩
  | emptyObject => exact ⟨⟨List.nodup_nil, trivial⟩, hstack⟩
  | firstKey => exact ⟨fun _ hmem => absurd hmem List.not_mem_nil, hstack⟩
  | key => exact ⟨hawaits, hstack⟩
  | colon => exact ⟨trivial, List.forall_mem_cons.mpr ⟨hawaits, hstack⟩⟩
  | @nextItem outer items done =>
    obtain ⟨hitems, houter⟩ := List.forall_mem_cons.mp hstack
    have hmore : ∀ item ∈ done :: items, item.Keyed := List.forall_mem_cons.mpr ⟨hawaits, hitems⟩
    exact ⟨trivial, List.forall_mem_cons.mpr ⟨hmore, houter⟩⟩
  | @closeArray outer items done =>
    obtain ⟨hitems, houter⟩ := List.forall_mem_cons.mp hstack
    have hmore : ∀ item ∈ done :: items, item.Keyed := List.forall_mem_cons.mpr ⟨hawaits, hitems⟩
    exact ⟨keyed_array.mpr fun item hitem => hmore item (List.mem_reverse.mp hitem), houter⟩
  | @nextField outer fields key done =>
    obtain ⟨hfields, houter⟩ := List.forall_mem_cons.mp hstack
    have hmore : ∀ field ∈ (key, done) :: fields, field.2.Keyed := List.forall_mem_cons.mpr ⟨hawaits, hfields⟩
    exact ⟨hmore, houter⟩
  | @closeObject outer fields key done =>
    obtain ⟨hfields, houter⟩ := List.forall_mem_cons.mp hstack
    have hmore : ∀ field ∈ (key, done) :: fields, field.2.Keyed := List.forall_mem_cons.mpr ⟨hawaits, hfields⟩
    refine ⟨keyed_object.mpr ⟨Fields.nodup_keys_ofList _, fun field hfield => ?_⟩, houter⟩
    exact hmore field (List.mem_reverse.mp (Fields.mem_of_mem_ofList hfield))

theorem Keyed.foldlM {ts : List Token} {r s : Reading} (hr : r.Keyed) (hts : ∀ u ∈ ts, u.Keyed)
    (h : ts.foldlM (Reading.step limits) r = some s) : s.Keyed := by
  induction ts generalizing r with
  | nil =>
    cases h
    exact hr
  | cons u rest ih =>
    obtain ⟨hu, hrest⟩ := List.forall_mem_cons.mp hts
    rw [List.foldlM_cons] at h
    obtain ⟨next, hnext, h⟩ := Option.bind_eq_some_iff.mp h
    exact ih (hr.moves hu (moves_of_step hnext)) hrest h

end Reading

/-- A document that is read has no key twice. -/
theorem keyed_read? (h : read? limits t = some j) : j.Keyed := by
  obtain ⟨ts, hts, hr⟩ := exists_tokens_of_read? h
  have hstart : Reading.Keyed .start := ⟨trivial, nofun⟩
  exact (hstart.foldlM (keyed_scan hts) hr).awaits

end Json

end SnippetTutor
