import SnippetTutor.Text.Basic

/-! # Ordered fields

A finite map from names that remembers the order in which the names came in. A name
that is assigned again keeps its place.
-/
namespace SnippetTutor

abbrev Fields (α : Type) := List (Text × α)

namespace Fields

variable {α : Type}

def get? (fields : Fields α) (key : Text) : Option α :=
  (fields.find? fun field => field.1 == key).map Prod.snd

def has (fields : Fields α) (key : Text) : Bool := fields.any fun field => field.1 == key

def keys (fields : Fields α) : List Text := fields.map Prod.fst

def assign : Fields α → Text → α → Fields α
  | [], key, value => [(key, value)]
  | (k, v) :: rest, key, value =>
    if k = key then (k, value) :: rest else (k, v) :: assign rest key value

/-- Assigns all the given fields in their order. -/
def update (fields new : Fields α) : Fields α :=
  new.foldl (fun merged field => merged.assign field.1 field.2) fields

/-- The map that a list of fields describes, a later field winning over an earlier
one with the same key. -/
def ofList (fields : List (Text × α)) : Fields α := update [] fields

theorem get?_cons (field : Text × α) (fields : Fields α) (key : Text) :
    get? (field :: fields) key = if field.1 = key then some field.2 else get? fields key := by
  by_cases h : field.1 = key <;> simp [get?, h]

theorem get?_assign_self (fields : Fields α) (key : Text) (value : α) :
    get? (assign fields key value) key = some value := by
  induction fields with
  | nil => simp [assign, get?]
  | cons field rest ih =>
    by_cases h : field.1 = key
    · simp [assign, get?, h]
    · simpa [assign, get?, h] using ih

theorem get?_assign_of_ne (fields : Fields α) {key other : Text} (value : α) (h : other ≠ key) :
    get? (assign fields key value) other = get? fields other := by
  induction fields with
  | nil => simp [assign, get?, Ne.symm h]
  | cons field rest ih =>
    by_cases hk : field.1 = key
    · have ho : key ≠ other := Ne.symm h
      simp [assign, get?, hk, ho]
    · by_cases ho : field.1 = other
      · subst ho
        simp [assign, get?, h]
      · simpa [assign, get?, hk, ho] using ih

/-- Assigning the value that a name has changes nothing. -/
theorem assign_of_get? {fields : Fields α} {key : Text} {value : α} (h : get? fields key = some value) :
    assign fields key value = fields := by
  induction fields with
  | nil => cases h
  | cons field rest ih =>
    obtain ⟨k, v⟩ := field
    rw [get?_cons] at h
    by_cases hk : k = key
    · rw [if_pos hk] at h
      cases h
      rw [assign, if_pos hk]
    · rw [if_neg hk] at h
      rw [assign, if_neg hk, ih h]

/-- A name that is assigned again keeps its place, and a new one goes to the end. -/
theorem keys_assign (fields : Fields α) (key : Text) (value : α) :
    keys (assign fields key value) = if key ∈ keys fields then keys fields else keys fields ++ [key] := by
  induction fields with
  | nil => simp [assign, keys]
  | cons field rest ih =>
    by_cases h : field.1 = key
    · simp [assign, keys, h]
    · have hk : key ≠ field.1 := Ne.symm h
      simp only [keys] at ih
      by_cases hm : key ∈ rest.map Prod.fst
      · simp [assign, keys, h, hk, hm, ih]
      · simp [assign, keys, h, hk, hm, ih]

theorem nodup_keys_assign {fields : Fields α} (h : (keys fields).Nodup) (key : Text) (value : α) :
    (keys (assign fields key value)).Nodup := by
  rw [keys_assign]
  split
  · exact h
  · next hkey =>
    refine List.nodup_append.mpr ⟨h, by simp, ?_⟩
    intro a ha b hb
    rw [List.mem_singleton.mp hb]
    rintro rfl
    exact hkey ha

theorem keys_prefix_assign (fields : Fields α) (key : Text) (value : α) :
    keys fields <+: keys (assign fields key value) := by
  rw [keys_assign]
  split
  · exact List.prefix_rfl
  · exact List.prefix_append _ _

theorem keys_prefix_update (fields new : Fields α) : keys fields <+: keys (update fields new) := by
  induction new generalizing fields with
  | nil => exact List.prefix_rfl
  | cons field rest ih =>
    exact (keys_prefix_assign fields field.1 field.2).trans (ih (assign fields field.1 field.2))

theorem get?_isSome_iff (fields : Fields α) (key : Text) :
    (get? fields key).isSome ↔ key ∈ keys fields := by
  simp [get?, keys]

theorem get?_eq_none_iff (fields : Fields α) (key : Text) : get? fields key = none ↔ key ∉ keys fields := by
  rw [← get?_isSome_iff, Option.not_isSome_iff_eq_none]

theorem mem_of_get? {fields : Fields α} {key : Text} {value : α} (h : get? fields key = some value) :
    (key, value) ∈ fields := by
  obtain ⟨field, hfind, rfl⟩ := Option.map_eq_some_iff.mp h
  have hkey : field.1 = key := by simpa using List.find?_some hfind
  subst hkey
  exact List.mem_of_find?_eq_some hfind

theorem mem_assign {fields : Fields α} {key : Text} {value : α} {field : Text × α}
    (h : field ∈ assign fields key value) : field = (key, value) ∨ field ∈ fields := by
  induction fields with
  | nil => exact Or.inl (List.mem_singleton.mp h)
  | cons first rest ih =>
    obtain ⟨k, v⟩ := first
    by_cases hk : k = key
    · subst hk
      simp only [assign, if_true, List.mem_cons] at h ⊢
      rcases h with h | h
      · exact Or.inl h
      · exact Or.inr (Or.inr h)
    · simp only [assign, if_neg hk, List.mem_cons] at h ⊢
      rcases h with h | h
      · exact Or.inr (Or.inl h)
      · exact (ih h).imp_right Or.inr

theorem mem_update {fields new : Fields α} {field : Text × α} (h : field ∈ update fields new) :
    field ∈ new ∨ field ∈ fields := by
  induction new generalizing fields with
  | nil => exact Or.inr h
  | cons first rest ih =>
    rcases ih h with h | h
    · exact Or.inl (List.mem_cons_of_mem first h)
    · rcases mem_assign h with rfl | h
      · exact Or.inl List.mem_cons_self
      · exact Or.inr h

end Fields

end SnippetTutor
