/-
Reading results off a computation that may fail.

Every fold, check and rule here is a sequence of steps the first of which to fail
decides.  To learn something from the success of a sequence is therefore always
the same argument: each step succeeded, and here is what it gave.  It is made
once, for one step; longer sequences are taken apart by repeating it.
-/
import Keyless.Bytes

namespace Keyless

variable {ε α β : Type}

/-- A step and what follows succeed when both do. -/
theorem bind_eq_ok_iff {step : Except ε α} {next : α → Except ε β} {b : β} :
    (step >>= next) = .ok b ↔ ∃ a, step = .ok a ∧ next a = .ok b := by
  cases step with
  | error fault => simp [bind, Except.bind]
  | ok a => simp [bind, Except.bind]

theorem bind_eq_error_iff {step : Except ε α} {next : α → Except ε β} {fault : ε} :
    (step >>= next) = .error fault ↔
      step = .error fault ∨ ∃ a, step = .ok a ∧ next a = .error fault := by
  cases step with
  | error fault => simp [bind, Except.bind]
  | ok a => simp [bind, Except.bind]

theorem bind_pure_eq_ok_iff {step : Except ε α} {f : α → β} {b : β} :
    (step >>= fun a => pure (f a)) = .ok b ↔ ∃ a, step = .ok a ∧ f a = b := by
  rw [bind_eq_ok_iff]
  simp only [pure, Except.pure, Except.ok.injEq]

theorem bind_pure_eq_error_iff {step : Except ε α} {f : α → β} {fault : ε} :
    (step >>= fun a => pure (f a)) = .error fault ↔ step = .error fault := by
  rw [bind_eq_error_iff]
  simp [pure, Except.pure]

theorem check_bind_eq_ok_iff {check : Except ε Unit} {next : Unit → Except ε β} {b : β} :
    (check >>= next) = .ok b ↔ check = .ok () ∧ next () = .ok b := by
  rw [bind_eq_ok_iff]
  exact ⟨fun ⟨_, hcheck, hnext⟩ => ⟨hcheck, hnext⟩, fun h => ⟨(), h⟩⟩

theorem toOption_eq_some_iff {step : Except ε α} {a : α} :
    step.toOption = some a ↔ step = .ok a := by
  cases step <;> simp [Except.toOption]

theorem exists_of_isOk {step : Except ε α} (h : step.isOk = true) : ∃ a, step = .ok a := by
  cases step with
  | error fault => exact absurd h (by simp [Except.isOk, Except.toBool])
  | ok a => exact ⟨a, rfl⟩

theorem mapError_eq_ok_iff {ε' : Type} {step : Except ε α} {reword : ε → ε'} {a : α} :
    step.mapError reword = .ok a ↔ step = .ok a := by
  cases step with
  | error fault =>
      show Except.error (reword fault) = Except.ok a ↔ _
      simp
  | ok b =>
      show Except.ok b = Except.ok a ↔ _
      simp

theorem map_eq_ok_iff {step : Except ε α} {f : α → β} {b : β} :
    step.map f = .ok b ↔ ∃ a, step = .ok a ∧ f a = b := by
  cases step <;> simp [Except.map]

theorem map_eq_error_iff {step : Except ε α} {f : α → β} {fault : ε} :
    step.map f = .error fault ↔ step = .error fault := by
  cases step <;> simp [Except.map]

theorem mapError_eq_error_iff {ε' : Type} {step : Except ε α} {reword : ε → ε'} {fault : ε'} :
    step.mapError reword = .error fault ↔ ∃ cause, step = .error cause ∧ reword cause = fault := by
  cases step with
  | error cause =>
      show Except.error (reword cause) = Except.error fault ↔ _
      simp
  | ok a =>
      show Except.ok a = Except.error fault ↔ _
      simp

/-- A fault that is thrown on a condition was not thrown if the whole succeeded. -/
theorem throwIf_eq_ok_iff {condition : Prop} [Decidable condition] {fault : ε}
    {next : Unit → Except ε β} {b : β} :
    (if condition then (throw fault >>= next) else next ()) = .ok b ↔
      ¬ condition ∧ next () = .ok b := by
  by_cases h : condition
  · simp [h, throw, throwThe, MonadExceptOf.throw, bind, Except.bind]
  · simp [h]

/-- A check of every member of a list succeeds when each member passes it. -/
theorem forM_eq_ok_iff {check : α → Except ε Unit} {l : List α} :
    l.forM check = .ok () ↔ ∀ a ∈ l, check a = .ok () := by
  induction l with
  | nil => exact ⟨fun _ a ha => absurd ha List.not_mem_nil, fun _ => rfl⟩
  | cons a rest ih =>
      show (check a >>= fun _ => rest.forM check) = .ok () ↔ _
      rw [check_bind_eq_ok_iff, List.forall_mem_cons, ← ih]

end Keyless
