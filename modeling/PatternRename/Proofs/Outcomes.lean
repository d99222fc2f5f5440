import Mathlib.Data.List.Forall2

/-!
# Computations that may fail

A computation in steps succeeds if each of its steps does, and what it gives is made of what the
steps give.

## Main results

- `bind_eq_ok_iff`, `bind_eq_error_iff`, `map_eq_ok_iff` — a step and what is made of it
- `mapM_eq_ok_iff`, `mapM_eq_error_iff`, `mem_iff_of_mapM_eq_ok` — the same step for each element of
  a list
-/

namespace PatternRename

variable {ε α β : Type}

theorem ok_bind (a : α) (next : α → Except ε β) : Except.ok a >>= next = next a := rfl

theorem bind_eq_ok_iff {first : Except ε α} {next : α → Except ε β} {b : β} :
    first >>= next = .ok b ↔ ∃ a, first = .ok a ∧ next a = .ok b := by
  cases first <;> simp [bind, Except.bind]

theorem bind_eq_error_iff {first : Except ε α} {next : α → Except ε β} {failure : ε} :
    first >>= next = .error failure ↔
      first = .error failure ∨ ∃ a, first = .ok a ∧ next a = .error failure := by
  cases first <;> simp [bind, Except.bind]

theorem map_eq_ok_iff {outcome : Except ε α} {f : α → β} {b : β} :
    outcome.map f = .ok b ↔ ∃ a, outcome = .ok a ∧ f a = b := by
  cases outcome <;> simp [Except.map]

theorem map_eq_error_iff {outcome : Except ε α} {f : α → β} {failure : ε} :
    outcome.map f = .error failure ↔ outcome = .error failure := by
  cases outcome <;> simp [Except.map]

theorem mapError_eq_ok_iff {ε' : Type} {outcome : Except ε α} {f : ε → ε'} {a : α} :
    outcome.mapError f = .ok a ↔ outcome = .ok a := by
  cases outcome <;> simp [Except.mapError]

theorem mapError_eq_error_iff {ε' : Type} {outcome : Except ε α} {f : ε → ε'} {failure : ε'} :
    outcome.mapError f = .error failure ↔ ∃ flaw, outcome = .error flaw ∧ failure = f flaw := by
  cases outcome <;> simp [Except.mapError, eq_comm]

theorem toOption_eq_some_iff {outcome : Except ε α} {a : α} :
    outcome.toOption = some a ↔ outcome = .ok a := by
  cases outcome <;> simp [Except.toOption]

theorem toOption_eq_of_ok_iff {outcome other : Except ε α}
    (h : ∀ a, outcome = .ok a ↔ other = .ok a) : outcome.toOption = other.toOption := by
  apply Option.ext
  intro a
  rw [toOption_eq_some_iff, toOption_eq_some_iff, h]

/-- A step for each element of a list succeeds if it does so for each of them. -/
theorem mapM_eq_ok_iff {step : α → Except ε β} {as : List α} {bs : List β} :
    as.mapM step = .ok bs ↔ List.Forall₂ (fun a b => step a = .ok b) as bs := by
  induction as generalizing bs with
  | nil =>
    rw [List.mapM_nil, List.forall₂_nil_left_iff]
    constructor
    · intro h
      exact (Except.ok.inj h).symm
    · rintro rfl
      rfl
  | cons a as ih =>
    rw [List.mapM_cons, List.forall₂_cons_left_iff, bind_eq_ok_iff]
    apply exists_congr
    intro b
    rw [bind_eq_ok_iff]
    constructor
    · rintro ⟨hb, rest, hrest, hcons⟩
      exact ⟨rest, hb, ih.mp hrest, (Except.ok.inj hcons).symm⟩
    · rintro ⟨rest, hb, hrest, rfl⟩
      exact ⟨hb, rest, ih.mpr hrest, rfl⟩

/-- What a step for each element of a list gives is what it gives for one of them. -/
theorem mem_iff_of_mapM_eq_ok {step : α → Except ε β} {as : List α} {bs : List β}
    (h : as.mapM step = .ok bs) {b : β} : b ∈ bs ↔ ∃ a ∈ as, step a = .ok b := by
  rw [mapM_eq_ok_iff] at h
  induction h with
  | nil => simp
  | @cons a b' as bs hb _ ih =>
    rw [List.mem_cons, ih, List.exists_mem_cons_iff, hb, Except.ok.injEq, eq_comm]

/-- A step for each element of a list fails as it does for the first one for which it fails. -/
theorem mapM_eq_error_iff {step : α → Except ε β} {as : List α} {failure : ε} :
    as.mapM step = .error failure ↔ ∃ front a rest, as = front ++ a :: rest ∧
      (∀ before ∈ front, ∃ b, step before = .ok b) ∧ step a = .error failure := by
  induction as with
  | nil => simp [pure, Except.pure]
  | cons a as ih =>
    rw [List.mapM_cons, bind_eq_error_iff]
    constructor
    · rintro (ha | ⟨b, hb, hrest⟩)
      · exact ⟨[], a, as, rfl, fun _ hnone => absurd hnone List.not_mem_nil, ha⟩
      · rcases bind_eq_error_iff.mp hrest with hfails | ⟨bs, -, hpure⟩
        · obtain ⟨front, other, rest, rfl, hfront, hother⟩ := ih.mp hfails
          exact ⟨a :: front, other, rest, rfl, List.forall_mem_cons.mpr ⟨⟨b, hb⟩, hfront⟩, hother⟩
        · exact absurd hpure (by simp [pure, Except.pure])
    · rintro ⟨front, other, rest, heq, hfront, hother⟩
      cases front with
      | nil =>
        obtain ⟨rfl, rfl⟩ := List.cons.inj heq
        exact Or.inl hother
      | cons first front =>
        obtain ⟨rfl, rfl⟩ := List.cons.inj heq
        obtain ⟨⟨b, hb⟩, hfront⟩ := List.forall_mem_cons.mp hfront
        have hrest := ih.mpr ⟨front, other, rest, rfl, hfront, hother⟩
        exact Or.inr ⟨b, hb, bind_eq_error_iff.mpr (Or.inl hrest)⟩

/-- If a step for each element of a list fails, it does so for one of them. -/
theorem exists_mem_of_mapM_eq_error {step : α → Except ε β} {as : List α} {failure : ε}
    (h : as.mapM step = .error failure) : ∃ a ∈ as, step a = .error failure := by
  obtain ⟨front, a, rest, rfl, -, ha⟩ := mapM_eq_error_iff.mp h
  exact ⟨a, List.mem_append_right front List.mem_cons_self, ha⟩

theorem exists_mapM_eq_ok {step : α → Except ε β} {as : List α}
    (h : ∀ a ∈ as, ∃ b, step a = .ok b) : ∃ bs, as.mapM step = .ok bs := by
  induction as with
  | nil => exact ⟨[], rfl⟩
  | cons a as ih =>
    obtain ⟨b, hb⟩ := h a List.mem_cons_self
    obtain ⟨bs, hbs⟩ := ih fun other hother => h other (List.mem_cons_of_mem a hother)
    refine ⟨b :: bs, ?_⟩
    rw [List.mapM_cons, hb, hbs]
    rfl

theorem exists_mapM_eq_ok_iff {step : α → Except ε β} {as : List α} :
    (∃ bs, as.mapM step = .ok bs) ↔ ∀ a ∈ as, ∃ b, step a = .ok b := by
  refine ⟨?_, exists_mapM_eq_ok⟩
  rintro ⟨bs, h⟩
  rw [mapM_eq_ok_iff] at h
  induction h with
  | nil => exact fun _ hnone => absurd hnone List.not_mem_nil
  | cons hb _ ih => exact List.forall_mem_cons.mpr ⟨⟨_, hb⟩, ih⟩

/-- Where a step can only fail in one way, a step for each element of a list fails in this way if it
does so for one of them. -/
theorem mapM_eq_error_iff_of_only {step : α → Except ε β} {as : List α} {only failure : ε}
    {Fails : α → Prop}
    (hstep : ∀ a ∈ as, ∀ failure, step a = .error failure ↔ failure = only ∧ Fails a) :
    as.mapM step = .error failure ↔ failure = only ∧ ∃ a ∈ as, Fails a := by
  constructor
  · intro h
    obtain ⟨a, hmem, ha⟩ := exists_mem_of_mapM_eq_error h
    obtain ⟨rfl, hfails⟩ := (hstep a hmem failure).mp ha
    exact ⟨rfl, a, hmem, hfails⟩
  · rintro ⟨rfl, a, hmem, hfails⟩
    have ha := (hstep a hmem failure).mpr ⟨rfl, hfails⟩
    cases hall : as.mapM step with
    | ok bs =>
      obtain ⟨b, hb⟩ := exists_mapM_eq_ok_iff.mp ⟨bs, hall⟩ a hmem
      rw [ha] at hb
      simp at hb
    | error other =>
      obtain ⟨a', hmem', ha'⟩ := exists_mem_of_mapM_eq_error hall
      rw [((hstep a' hmem' other).mp ha').1]

end PatternRename
