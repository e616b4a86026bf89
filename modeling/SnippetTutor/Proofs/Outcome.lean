/-! # Computations that may fault

A chain of computations succeeds exactly when each of them does, and it fails with
the fault of the first one that does not.
-/
namespace SnippetTutor.Outcome

variable {ε α β γ : Type}

theorem bind_eq_ok {x : Except ε α} {f : α → Except ε β} {b : β} :
    x >>= f = .ok b ↔ ∃ a, x = .ok a ∧ f a = .ok b := by
  cases x with
  | error e => simp [bind, Except.bind]
  | ok a => simp [bind, Except.bind]

theorem bind_eq_error {x : Except ε α} {f : α → Except ε β} {e : ε} :
    x >>= f = .error e ↔ x = .error e ∨ ∃ a, x = .ok a ∧ f a = .error e := by
  cases x with
  | error e' => simp [bind, Except.bind]
  | ok a => simp [bind, Except.bind]

theorem map_ok (a : α) (f : α → β) : (Except.ok a : Except ε α).map f = .ok (f a) := rfl

theorem map_bind (x : Except ε α) (f : α → Except ε β) (g : β → γ) :
    (x >>= f).map g = x >>= fun a => (f a).map g := by
  cases x <;> rfl

theorem map_eq_ok {x : Except ε α} {f : α → β} {b : β} :
    x.map f = .ok b ↔ ∃ a, x = .ok a ∧ f a = b := by
  cases x with
  | error e => simp [Except.map]
  | ok a => simp [Except.map]

theorem map_eq_error {x : Except ε α} {f : α → β} {e : ε} :
    x.map f = .error e ↔ x = .error e := by
  cases x with
  | error e' => simp [Except.map]
  | ok a => simp [Except.map]

theorem eq_ok_of_toOption {x : Except ε α} {a : α} (h : x.toOption = some a) : x = .ok a := by
  cases x with
  | error e => cases h
  | ok b =>
    cases h
    rfl

theorem ok_or_error (x : Except ε α) : (∃ a, x = .ok a) ∨ ∃ e, x = .error e := by
  cases x with
  | error e => exact Or.inr ⟨e, rfl⟩
  | ok a => exact Or.inl ⟨a, rfl⟩

theorem exists_of_mem_mapM {f : α → Except ε β} {xs : List α} {ys : List β} {y : β}
    (h : xs.mapM f = .ok ys) (hy : y ∈ ys) : ∃ x ∈ xs, f x = .ok y := by
  induction xs generalizing ys with
  | nil =>
    cases h
    cases hy
  | cons x rest ih =>
    rw [List.mapM_cons] at h
    obtain ⟨first, hfirst, h⟩ := bind_eq_ok.mp h
    obtain ⟨more, hmore, h⟩ := bind_eq_ok.mp h
    cases h
    rcases List.mem_cons.mp hy with rfl | hy
    · exact ⟨x, List.mem_cons_self, hfirst⟩
    · obtain ⟨z, hz, he⟩ := ih hmore hy
      exact ⟨z, List.mem_cons_of_mem x hz, he⟩

section OneFault
variable [Subsingleton ε]

theorem exists_ok_iff {x : Except ε α} (e : ε) : (∃ a, x = .ok a) ↔ ¬ x = .error e := by
  cases x with
  | error e' => simp [Subsingleton.elim e' e]
  | ok a => simp

theorem eq_error_of_toOption {x : Except ε α} (h : x.toOption = none) (e : ε) : x = .error e := by
  cases x with
  | error e' => rw [Subsingleton.elim e' e]
  | ok a => cases h

/-- Where there is only one fault, a list of computations has it if one of them does. -/
theorem mapM_eq_error {f : α → Except ε β} {xs : List α} {e : ε} :
    xs.mapM f = .error e ↔ ∃ x ∈ xs, f x = .error e := by
  induction xs with
  | nil => simp [pure, Except.pure]
  | cons x rest ih =>
    rw [List.mapM_cons, bind_eq_error]
    constructor
    · rintro (hx | ⟨b, -, hr⟩)
      · exact ⟨x, List.mem_cons_self, hx⟩
      · rcases bind_eq_error.mp hr with hr | ⟨bs, -, hp⟩
        · obtain ⟨y, hy, he⟩ := ih.mp hr
          exact ⟨y, List.mem_cons_of_mem x hy, he⟩
        · simp [pure, Except.pure] at hp
    · rintro ⟨y, hy, he⟩
      rcases ok_or_error (f x) with ⟨b, hb⟩ | ⟨e', he'⟩
      · refine Or.inr ⟨b, hb, bind_eq_error.mpr (Or.inl (ih.mpr ⟨y, ?_, he⟩))⟩
        rcases List.mem_cons.mp hy with rfl | hy
        · rw [hb] at he
          cases he
        · exact hy
      · exact Or.inl (Subsingleton.elim e' e ▸ he')

end OneFault

/-- A fold fails at the first element that fails on what the elements before it made. -/
theorem foldlM_eq_error {f : β → α → Except ε β} {xs : List α} {b : β} {e : ε} :
    xs.foldlM f b = .error e ↔
      ∃ done x rest a, xs = done ++ x :: rest ∧ done.foldlM f b = .ok a ∧ f a x = .error e := by
  induction xs generalizing b with
  | nil => simp [pure, Except.pure]
  | cons x rest ih =>
    rw [List.foldlM_cons, bind_eq_error]
    constructor
    · rintro (hx | ⟨a, ha, hr⟩)
      · exact ⟨[], x, rest, b, rfl, rfl, hx⟩
      · obtain ⟨done, y, more, c, rfl, hdone, hy⟩ := ih.mp hr
        refine ⟨x :: done, y, more, c, rfl, ?_, hy⟩
        rw [List.foldlM_cons, ha]
        exact hdone
    · rintro ⟨done, y, more, c, hxs, hdone, hy⟩
      cases done with
      | nil =>
        cases hxs
        cases hdone
        exact Or.inl hy
      | cons z done =>
        cases hxs
        rw [List.foldlM_cons] at hdone
        obtain ⟨a, ha, hdone⟩ := bind_eq_ok.mp hdone
        exact Or.inr ⟨a, ha, ih.mpr ⟨done, y, more, c, rfl, hdone, hy⟩⟩

/-- Two folds agree if their functions agree wherever the first of them comes. -/
theorem foldlM_congr {f g : β → α → Except ε β} {xs : List α} {b : β}
    (h : ∀ done x rest a, xs = done ++ x :: rest → done.foldlM f b = .ok a → f a x = g a x) :
    xs.foldlM f b = xs.foldlM g b := by
  induction xs generalizing b with
  | nil => rfl
  | cons x rest ih =>
    rw [List.foldlM_cons, List.foldlM_cons, ← h [] x rest b rfl rfl]
    cases ha : f b x with
    | error e => rfl
    | ok a =>
      apply ih
      intro done y more c hrest hdone
      apply h (x :: done) y more c
      · rw [hrest]
        rfl
      · rw [List.foldlM_cons, ha]
        exact hdone

/-- Two computations that succeed with related results, or fail with the same fault. -/
inductive Related (R : α → β → Prop) : Except ε α → Except ε β → Prop
  | ok {a : α} {b : β} : R a b → Related R (.ok a) (.ok b)
  | error {e : ε} : Related R (.error e) (.error e)

namespace Related
variable {α' β' : Type} {R : α → β → Prop} {S : α' → β' → Prop} {x : Except ε α} {y : Except ε β}

theorem map {f : α → α'} {g : β → β'} (h : Related R x y)
    (hfg : ∀ a b, x = .ok a → y = .ok b → R a b → S (f a) (g b)) : Related S (x.map f) (y.map g) := by
  cases h with
  | ok hab => exact .ok (hfg _ _ rfl rfl hab)
  | error => exact .error

theorem bind {f : α → Except ε α'} {g : β → Except ε β'} (h : Related R x y)
    (hfg : ∀ a b, x = .ok a → y = .ok b → R a b → Related S (f a) (g b)) :
    Related S (x >>= f) (y >>= g) := by
  cases h with
  | ok hab => exact hfg _ _ rfl rfl hab
  | error => exact .error

theorem exists_left {b : β} (h : Related R x (.ok b)) : ∃ a, x = .ok a ∧ R a b := by
  cases h with
  | ok hab => exact ⟨_, rfl, hab⟩

theorem exists_right {a : α} (h : Related R (.ok a) y) : ∃ b, y = .ok b ∧ R a b := by
  cases h with
  | ok hab => exact ⟨_, rfl, hab⟩

theorem eq_error {e : ε} (h : Related R (.error e) y) : y = .error e := by
  cases h with
  | error => rfl

end Related

end SnippetTutor.Outcome
