import Mathlib.Data.List.Forall2
import Mathlib.Data.List.Perm.Subperm
import SnippetTutor.Proofs.Value.Export
import SnippetTutor.Value.Equality

/-! # Values that are the same, and values that are alike

Two values match if they are put together in the same way, up to the order of the fields of a record,
from single values that match. What this means for single values is left open. If they have to agree in
kind as well, the two values are the same; the equality of a snippet also lets a boolean stand for a
number and a nan for itself. The two differ exactly where such a value occurs.
-/
namespace SnippetTutor

namespace Fields
variable {α : Type} {fields : Fields α} {key : Text} {value other : α}

theorem value_unique (hnodup : (keys fields).Nodup) (h : (key, value) ∈ fields) (hother : (key, other) ∈ fields) :
    value = other :=
  congrArg Prod.snd (List.inj_on_of_nodup_map hnodup h hother rfl)

end Fields

namespace Value
variable {v w u part : Value} {xs ys : List Value} {fields others : List (Text × Value)}
  {leaf leaf' : Value → Value → Prop}

/-- No record in the value has a key twice. -/
def Keyed (v : Value) : Prop := v.toJson.Keyed

theorem keyed_list : (list xs).Keyed ↔ ∀ x ∈ xs, x.Keyed := keyed_toJsonItems

theorem keyed_record : (record fields).Keyed ↔ (Fields.keys fields).Nodup ∧ ∀ field ∈ fields, field.2.Keyed := by
  rw [← keys_toJsonFields]
  exact and_congr_right fun _ => keyed_toJsonFields

/-! ## The build of a value -/

/-- The values that a list or a record holds. -/
def parts : Value → List Value
  | .list items => items
  | .record fields => fields.map Prod.snd
  | .number _ | .text _ | .bool _ | .function _ | .undefined => []

def isCompound : Value → Bool
  | .list _ | .record _ => true
  | .number _ | .text _ | .bool _ | .function _ | .undefined => false

theorem sizeOf_lt_of_mem_parts (h : part ∈ v.parts) : sizeOf part < sizeOf v := by
  cases v with
  | list items =>
    have hitem : sizeOf part < sizeOf items := List.sizeOf_lt_of_mem h
    simp only [list.sizeOf_spec]
    omega
  | record fields =>
    obtain ⟨⟨key, value⟩, hfield, rfl⟩ := List.mem_map.mp h
    have hsize := List.sizeOf_lt_of_mem hfield
    simp only [record.sizeOf_spec, Prod.mk.sizeOf_spec] at hsize ⊢
    omega
  | number | text | bool | function | undefined => cases h

theorem induction_on_parts {P : Value → Prop} (h : ∀ v, (∀ part ∈ v.parts, P part) → P v) (v : Value) : P v :=
  h v fun part _ => induction_on_parts h part
termination_by v
decreasing_by exact sizeOf_lt_of_mem_parts ‹_›

theorem Keyed.of_mem_parts (hv : v.Keyed) (h : part ∈ v.parts) : part.Keyed := by
  cases v with
  | list items => exact keyed_list.mp hv part h
  | record fields =>
    obtain ⟨field, hfield, rfl⟩ := List.mem_map.mp h
    exact (keyed_record.mp hv).2 field hfield
  | number | text | bool | function | undefined => cases h

theorem keyed_of_not_isCompound (h : v.isCompound = false) : v.Keyed := by
  cases v with
  | number x => exact keyed_number x
  | function f => exact f.keyed_toJson
  | text | bool | undefined => trivial
  | list | record => cases h

/-- Two values match if they are built in the same way from single values that match. -/
inductive Matches (leaf : Value → Value → Prop) : Value → Value → Prop
  | leaf {v w : Value} (hv : v.isCompound = false) (hw : w.isCompound = false) (h : leaf v w) : Matches leaf v w
  | list {xs ys : List Value} (hlength : xs.length = ys.length)
      (h : ∀ {x y}, (x, y) ∈ xs.zip ys → Matches leaf x y) : Matches leaf (.list xs) (.list ys)
  | record {fields others : List (Text × Value)} (hkeys : (Fields.keys fields).Perm (Fields.keys others))
      (h : ∀ {key x y}, (key, x) ∈ fields → (key, y) ∈ others → Matches leaf x y) :
      Matches leaf (.record fields) (.record others)

theorem matches_list_iff : Matches leaf (.list xs) (.list ys) ↔ List.Forall₂ (Matches leaf) xs ys := by
  rw [List.forall₂_iff_zip]
  constructor
  · intro h
    cases h with
    | leaf hv => cases hv
    | list hlength h => exact ⟨hlength, h⟩
  · rintro ⟨hlength, h⟩
    exact .list hlength h

theorem matches_record_iff : Matches leaf (.record fields) (.record others) ↔
    (Fields.keys fields).Perm (Fields.keys others) ∧
      ∀ {key x y}, (key, x) ∈ fields → (key, y) ∈ others → Matches leaf x y := by
  constructor
  · intro h
    cases h with
    | leaf hv => cases hv
    | record hkeys h => exact ⟨hkeys, h⟩
  · rintro ⟨hkeys, h⟩
    exact .record hkeys h

theorem Matches.isCompound_eq (h : Matches leaf v w) : v.isCompound = w.isCompound := by
  cases h with
  | leaf hv hw => rw [hv, hw]
  | list | record => rfl

theorem Matches.mono (hleaf : ∀ {x y}, leaf x y → leaf' x y) (h : Matches leaf v w) : Matches leaf' v w := by
  induction h with
  | leaf hv hw h => exact .leaf hv hw (hleaf h)
  | list hlength _ ih => exact .list hlength ih
  | record hkeys _ ih => exact .record hkeys ih

theorem matches_refl (hleaf : ∀ x, x.isCompound = false → leaf x x) (hv : v.Keyed) : Matches leaf v v := by
  induction v using induction_on_parts with
  | h v ih =>
    cases v with
    | list items =>
      rw [matches_list_iff, List.forall₂_same]
      exact fun x hx => ih x hx (hv.of_mem_parts hx)
    | record fields =>
      refine matches_record_iff.mpr ⟨List.Perm.refl _, fun {key x y} hx hy => ?_⟩
      -- With a key twice, a record would not even match itself.
      obtain rfl := Fields.value_unique (keyed_record.mp hv).1 hx hy
      have hpart : x ∈ (Value.record fields).parts := List.mem_map_of_mem hx
      exact ih x hpart (hv.of_mem_parts hpart)
    | number | text | bool | function | undefined => exact .leaf rfl rfl (hleaf _ rfl)

/-- The value is there, as a whole or at any depth. -/
inductive Occurs (u : Value) : Value → Prop
  | here : Occurs u u
  | inside {v part : Value} (hpart : part ∈ v.parts) (h : Occurs u part) : Occurs u v

/-- It is enough to look at the single values that occur on the right. -/
theorem Matches.sharpen (h : Matches leaf v w) (hleaf : ∀ {x y}, Occurs y w → leaf x y → leaf' x y) :
    Matches leaf' v w := by
  induction h with
  | leaf hv hw h => exact .leaf hv hw (hleaf .here h)
  | list hlength _ ih =>
    refine .list hlength fun hxy => ih hxy fun hoccurs => hleaf (.inside ?_ hoccurs)
    exact (List.of_mem_zip hxy).2
  | record hkeys _ ih =>
    refine .record hkeys fun hx hy => ih hx hy fun hoccurs => hleaf (.inside ?_ hoccurs)
    exact List.mem_map_of_mem hy

/-! ## Single values -/

/-- The same kind and the same content. Numbers are compared as numbers: the two zeros are the same, and
a nan is not the same as anything. -/
def SameLeaf : Value → Value → Prop
  | .number x, .number y => x.equal y = true
  | .text t, .text u => t = u
  | .bool p, .bool q => p = q
  | .function f, .function g => f = g
  | .undefined, .undefined => True
  | _, _ => False

/-- A boolean may also stand for a number, and a nan for itself. -/
def AlikeLeaf : Value → Value → Prop
  | .number x, .number y => x.equal y = true ∨ (x = .nan ∧ y = .nan)
  | .number x, .bool q => x.equal (boolAsNumber q) = true
  | .bool p, .number y => y.equal (boolAsNumber p) = true
  | v, w => SameLeaf v w

/-- The same value, with the same kinds throughout. -/
def Same (v w : Value) : Prop := Matches SameLeaf v w

/-- A single value that something else is alike to. -/
def Hazy : Value → Prop
  | .bool _ => True
  | .number x => x = .nan ∨ x.equal .one = true ∨ x.equal .zero = true
  | .text _ | .list _ | .record _ | .function _ | .undefined => False

theorem AlikeLeaf.of_sameLeaf (h : SameLeaf v w) : AlikeLeaf v w := by
  cases v <;> cases w <;> simp_all [SameLeaf, AlikeLeaf]

theorem AlikeLeaf.sameLeaf (h : AlikeLeaf v w) (hw : ¬ Hazy w) : SameLeaf v w := by
  cases v with
  | number x =>
    cases w with
    | number y =>
      simp only [Hazy, not_or] at hw
      exact h.resolve_right fun hnan => hw.1 hnan.2
    | bool => exact absurd trivial hw
    | text | list | record | function | undefined => exact h
  | bool p =>
    cases w with
    | number y =>
      simp only [Hazy, not_or] at hw
      cases p with
      | false => exact absurd h hw.2.2
      | true => exact absurd h hw.2.1
    | bool | text | list | record | function | undefined => exact h
  | text | list | record | function | undefined => exact h

/-- Of what a hazy value is alike to, something is not the same. -/
theorem Hazy.exists_mistaken (h : Hazy u) :
    u.isCompound = false ∧ ∃ v, v.isCompound = false ∧ AlikeLeaf v u ∧ ¬ SameLeaf v u := by
  cases u with
  | bool q =>
    have halike : (boolAsNumber q).equal (boolAsNumber q) = true := by cases q <;> decide +kernel
    exact ⟨rfl, .number (boolAsNumber q), rfl, halike, id⟩
  | number x =>
    refine ⟨rfl, ?_⟩
    rcases h with rfl | hone | hzero
    · exact ⟨.number .nan, rfl, Or.inr ⟨rfl, rfl⟩, Bool.false_ne_true⟩
    · exact ⟨.bool true, rfl, hone, id⟩
    · exact ⟨.bool false, rfl, hzero, id⟩
  | text | list | record | function | undefined => exact absurd h id

/-! ## The equality of a snippet -/

theorem alikeItems_iff : alikeItems xs ys = true ↔ List.Forall₂ (fun x y => alike x y = true) xs ys := by
  induction xs generalizing ys with
  | nil => cases ys <;> simp [alikeItems]
  | cons x xs ih =>
    cases ys with
    | nil => simp [alikeItems]
    | cons y ys => simp [alikeItems, ih]

theorem alikeFields_iff : alikeFields fields others = true ↔
    ∀ field ∈ fields, ∃ y, Fields.get? others field.1 = some y ∧ alike field.2 y = true := by
  induction fields with
  | nil => simp [alikeFields]
  | cons field rest ih =>
    rw [List.forall_mem_cons, ← ih]
    cases hvalue : Fields.get? others field.1 <;> simp [alikeFields, hvalue]

theorem alike_of_not_isCompound (hv : v.isCompound = false) :
    alike v w = true ↔ w.isCompound = false ∧ AlikeLeaf v w := by
  cases v with
  | list | record => cases hv
  | number | text | bool | function | undefined => cases w <;> simp [alike, isCompound, AlikeLeaf, SameLeaf]

/-- Records that have no key twice are alike if they have the same keys and alike values under them. -/
theorem alike_record_iff (hfields : (Fields.keys fields).Nodup) (hothers : (Fields.keys others).Nodup) :
    alike (.record fields) (.record others) = true ↔ (Fields.keys fields).Perm (Fields.keys others) ∧
      ∀ {key x y}, (key, x) ∈ fields → (key, y) ∈ others → alike x y = true := by
  have hlengths : fields.length = (Fields.keys fields).length ∧ others.length = (Fields.keys others).length := by
    simp [Fields.keys]
  rw [alike, Bool.and_eq_true, beq_iff_eq, alikeFields_iff, hlengths.1, hlengths.2]
  constructor
  · rintro ⟨hlength, h⟩
    have hsubset : Fields.keys fields ⊆ Fields.keys others := by
      intro key hkey
      obtain ⟨field, hfield, rfl⟩ := List.mem_map.mp hkey
      obtain ⟨y, hy, -⟩ := h field hfield
      exact (Fields.get?_isSome_iff others field.1).mp (Option.isSome_of_eq_some hy)
    -- Every key is found in the other record, which has no more of them.
    have hkeys : (Fields.keys fields).Perm (Fields.keys others) :=
      (List.Nodup.subperm hfields hsubset).perm_of_length_le (Nat.le_of_eq hlength.symm)
    refine ⟨hkeys, fun {key x y} hx hy => ?_⟩
    obtain ⟨found, hfound, hsame⟩ := h (key, x) hx
    rwa [Fields.value_unique hothers hy (Fields.mem_of_get? hfound)]
  · rintro ⟨hkeys, h⟩
    refine ⟨hkeys.length_eq, fun field hfield => ?_⟩
    have hkey : field.1 ∈ Fields.keys others := hkeys.mem_iff.mp (List.mem_map_of_mem hfield)
    obtain ⟨y, hy⟩ := Option.isSome_iff_exists.mp ((Fields.get?_isSome_iff _ _).mpr hkey)
    exact ⟨y, hy, h hfield (Fields.mem_of_get? hy)⟩

/-- The equality of a snippet is to match up to booleans that stand for numbers and nans. -/
theorem alike_iff (hv : v.Keyed) (hw : w.Keyed) : alike v w = true ↔ Matches AlikeLeaf v w := by
  induction v using induction_on_parts generalizing w with
  | h v ih =>
    cases v with
    | list xs =>
      cases w with
      | list ys =>
        rw [alike, alikeItems_iff, matches_list_iff, List.forall₂_iff_zip, List.forall₂_iff_zip]
        refine and_congr_right fun _ => forall₂_congr fun x y => forall_congr' fun hxy => ?_
        have hx : x ∈ (Value.list xs).parts := (List.of_mem_zip hxy).1
        have hy : y ∈ (Value.list ys).parts := (List.of_mem_zip hxy).2
        exact ih x hx (hv.of_mem_parts hx) (hw.of_mem_parts hy)
      | record | number | text | bool | function | undefined =>
        exact iff_of_false (by simp [alike]) fun h => by cases h with | leaf hcompound => cases hcompound
    | record fields =>
      cases w with
      | record others =>
        rw [alike_record_iff (keyed_record.mp hv).1 (keyed_record.mp hw).1, matches_record_iff]
        refine and_congr_right fun _ => forall₃_congr fun key x y => forall₂_congr fun hx hy => ?_
        have hxpart : x ∈ (Value.record fields).parts := List.mem_map_of_mem hx
        have hypart : y ∈ (Value.record others).parts := List.mem_map_of_mem hy
        exact ih x hxpart (hv.of_mem_parts hxpart) (hw.of_mem_parts hypart)
      | list | number | text | bool | function | undefined =>
        exact iff_of_false (by simp [alike]) fun h => by cases h with | leaf hcompound => cases hcompound
    | number | text | bool | function | undefined =>
      rw [alike_of_not_isCompound rfl]
      refine ⟨fun h => .leaf rfl h.1 h.2, fun h => ?_⟩
      cases h with
      | leaf _ hcompound h => exact ⟨hcompound, h⟩

/-! ## Where the two differ -/

theorem exists_exchange_item (hleaf : ∀ x, x.isCompound = false → leaf x x) {before after : List Value}
    (hv : (list (before ++ part :: after)).Keyed) (hw : w.Keyed) (h : Matches leaf w part) :
    (list (before ++ w :: after)).Keyed ∧
      Matches leaf (list (before ++ w :: after)) (list (before ++ part :: after)) ∧
      ∀ {leaf' : Value → Value → Prop},
        Matches leaf' (list (before ++ w :: after)) (list (before ++ part :: after)) → Matches leaf' w part := by
  rw [keyed_list, List.forall_mem_append, List.forall_mem_cons] at hv
  obtain ⟨hbefore, -, hafter⟩ := hv
  refine ⟨?_, ?_, fun {leaf'} hmatches => ?_⟩
  · rw [keyed_list, List.forall_mem_append, List.forall_mem_cons]
    exact ⟨hbefore, hw, hafter⟩
  · rw [matches_list_iff]
    have hrefl : ∀ {items : List Value}, (∀ x ∈ items, x.Keyed) → List.Forall₂ (Matches leaf) items items :=
      fun hitems => List.forall₂_same.mpr fun x hx => matches_refl hleaf (hitems x hx)
    exact List.rel_append (hrefl hbefore) (.cons h (hrefl hafter))
  · have hdrop := List.forall₂_drop_append _ _ _ (matches_list_iff.mp hmatches)
    rw [List.drop_left] at hdrop
    cases hdrop with
    | cons hpart _ => exact hpart

theorem exists_exchange_field (hleaf : ∀ x, x.isCompound = false → leaf x x) {key : Text}
    {before after : List (Text × Value)} (hv : (record (before ++ (key, part) :: after)).Keyed) (hw : w.Keyed)
    (h : Matches leaf w part) :
    (record (before ++ (key, w) :: after)).Keyed ∧
      Matches leaf (record (before ++ (key, w) :: after)) (record (before ++ (key, part) :: after)) ∧
      ∀ {leaf' : Value → Value → Prop},
        Matches leaf' (record (before ++ (key, w) :: after)) (record (before ++ (key, part) :: after)) →
          Matches leaf' w part := by
  have hkeys : Fields.keys (before ++ (key, w) :: after) = Fields.keys (before ++ (key, part) :: after) := by
    simp [Fields.keys]
  have hpart : (key, part) ∈ before ++ (key, part) :: after := List.mem_append_right _ List.mem_cons_self
  obtain ⟨hnodup, hfields⟩ := keyed_record.mp hv
  refine ⟨?_, ?_, fun {leaf'} hmatches => ?_⟩
  · rw [keyed_record, hkeys]
    rw [List.forall_mem_append, List.forall_mem_cons] at hfields ⊢
    exact ⟨hnodup, hfields.1, hw, hfields.2.2⟩
  · rw [matches_record_iff, hkeys]
    refine ⟨List.Perm.refl _, fun {other x y} hx hy => ?_⟩
    -- The two records have all fields in common but the one under the key of the part.
    have hcases : (other, x) = (key, w) ∨ (other, x) ∈ before ++ (key, part) :: after := by
      simp only [List.mem_append, List.mem_cons] at hx ⊢
      tauto
    rcases hcases with hchanged | hkept
    · obtain ⟨rfl, rfl⟩ := Prod.mk.inj hchanged
      rwa [Fields.value_unique hnodup hy hpart]
    · rw [Fields.value_unique hnodup hkept hy]
      exact matches_refl hleaf (hfields _ hy)
  · exact (matches_record_iff.mp hmatches).2 (List.mem_append_right _ List.mem_cons_self) hpart

/-- A part of a value can be exchanged for another one that matches it, and it is then the only one that
decides whether the values match in another sense. -/
theorem exists_exchange (hleaf : ∀ x, x.isCompound = false → leaf x x) (hv : v.Keyed) (hpart : part ∈ v.parts)
    (hw : w.Keyed) (h : Matches leaf w part) :
    ∃ v', v'.Keyed ∧ Matches leaf v' v ∧
      ∀ {leaf' : Value → Value → Prop}, Matches leaf' v' v → Matches leaf' w part := by
  cases v with
  | list items =>
    obtain ⟨before, after, rfl⟩ := List.append_of_mem hpart
    exact ⟨_, exists_exchange_item hleaf hv hw h⟩
  | record fields =>
    obtain ⟨⟨key, value⟩, hfield, rfl⟩ := List.mem_map.mp hpart
    obtain ⟨before, after, rfl⟩ := List.append_of_mem hfield
    exact ⟨_, exists_exchange_field hleaf hv hw h⟩
  | number | text | bool | function | undefined => cases hpart

theorem alikeLeaf_refl (x : Value) (hx : x.isCompound = false) : AlikeLeaf x x := by
  cases x with
  | number x =>
    cases x with
    | nan => exact Or.inr ⟨rfl, rfl⟩
    | infinite negative => exact Or.inl (by simp [Number.equal])
    | finite negative rank => exact Or.inl (by simp [Number.equal])
  | text | bool | function => rfl
  | undefined => trivial
  | list | record => cases hx

theorem exists_alike_not_same (hv : v.Keyed) (h : Occurs u v) (hu : Hazy u) :
    ∃ w, w.Keyed ∧ Matches AlikeLeaf w v ∧ ¬ Same w v := by
  induction h with
  | here =>
    obtain ⟨hcompound, w, hw, halike, hsame⟩ := hu.exists_mistaken
    refine ⟨w, keyed_of_not_isCompound hw, .leaf hw hcompound halike, fun h => ?_⟩
    cases h with
    | leaf _ _ h => exact hsame h
    | list | record => cases hcompound
  | inside hpart _ ih =>
    obtain ⟨w, hw, halike, hsame⟩ := ih (hv.of_mem_parts hpart)
    obtain ⟨v', hv', halike', hback⟩ := exists_exchange alikeLeaf_refl hv hpart hw halike
    exact ⟨v', hv', halike', fun h => hsame (hback h)⟩

theorem Same.alike (h : Same v w) : Matches AlikeLeaf v w := h.mono AlikeLeaf.of_sameLeaf

/-- Something that is not the same is alike to a value exactly if there is a hazy value in it. -/
theorem exists_alike_not_same_iff (hv : v.Keyed) :
    (∃ w, w.Keyed ∧ Matches AlikeLeaf w v ∧ ¬ Same w v) ↔ ∃ u, Occurs u v ∧ Hazy u := by
  constructor
  · rintro ⟨w, -, halike, hsame⟩
    by_contra hnone
    exact hsame (halike.sharpen fun hoccurs hleaf => hleaf.sameLeaf fun hu => hnone ⟨_, hoccurs, hu⟩)
  · rintro ⟨u, hoccurs, hu⟩
    exact exists_alike_not_same hv hoccurs hu

end Value

end SnippetTutor
