/-!
# `Proofs.Except` — computations that may fail

## Contents
- **Two parts.** When both of them succeed, and when the second may be exchanged for another one.
- **Faults.** A fault is told from results that cannot be compared.
- **Lists.** Items that are all taken as they are.
-/

namespace PacketTrace

variable {ε α β : Type}

/-! ## Two parts -/

/-- A computation in two parts succeeds if both parts do. -/
theorem bind_eq_ok {x : Except ε α} {f : α → Except ε β} {b : β} :
    x >>= f = .ok b ↔ ∃ a, x = .ok a ∧ f a = .ok b := by
  cases x with
  | error e =>
    constructor
    · intro h
      cases h
    · rintro ⟨a, h, -⟩
      cases h
  | ok a =>
    constructor
    · exact fun h => ⟨a, rfl, h⟩
    · rintro ⟨a', h, hf⟩
      cases h
      exact hf

/-- The second part matters only if the first one succeeds. -/
theorem bind_congr_ok {x : Except ε α} {f g : α → Except ε β} (h : ∀ a, x = .ok a → f a = g a) :
    x >>= f = x >>= g := by
  cases x with
  | error fault => rfl
  | ok a => exact h a rfl

/-! ## Faults -/

/-- A fault can be told without looking at results. -/
theorem eq_error_of_map {x : Except ε α} {fault : ε} (h : x.map (fun _ => ()) = .error fault) :
    x = .error fault := by
  cases x with
  | error e =>
    cases h
    rfl
  | ok a => cases h

/-! ## Lists -/

theorem mapM_ok (xs : List α) : xs.mapM (.ok : α → Except ε α) = .ok xs :=
  List.mapM_pure.trans (congrArg _ (List.map_id xs))

end PacketTrace
