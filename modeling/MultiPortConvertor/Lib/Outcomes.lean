import Mathlib.Data.Nat.Notation

/-! # The outcome of a piece of C code

A piece of code ends with a value (`next`), cannot go on now because it waits for a lock or a queue
(`blocked`), ends the whole process (`exit`), or follows a `NULL` pointer (`fault`). -/

namespace MultiPortConvertor.Lib.Outcomes

inductive Outcome (β : Type) where
  | next (b : β)
  | blocked
  | exit
  | fault
  deriving DecidableEq

namespace Outcome

variable {β γ : Type}

protected def bind : Outcome β → (β → Outcome γ) → Outcome γ
  | next b, f => f b
  | blocked, _ => blocked
  | exit, _ => exit
  | fault, _ => fault

instance : Monad Outcome where
  pure := next
  bind := Outcome.bind

/-- A pointer read, or code that may read through one: `none` is `NULL`. -/
def ofOption : Option β → Outcome β
  | some b => next b
  | none => fault

/-- The state reached, if there is one. -/
def toOption : Outcome β → Option β
  | next b => some b
  | _ => none

/-- The process has ended. -/
def isExit : Outcome β → Bool
  | exit => true
  | _ => false

@[simp] theorem pure_eq (b : β) : (pure b : Outcome β) = next b := rfl
@[simp] theorem next_bind (b : β) (f : β → Outcome γ) : (next b >>= f) = f b := rfl
@[simp] theorem blocked_bind (f : β → Outcome γ) : (blocked >>= f) = blocked := rfl
@[simp] theorem exit_bind (f : β → Outcome γ) : (exit >>= f) = exit := rfl
@[simp] theorem fault_bind (f : β → Outcome γ) : (fault >>= f) = fault := rfl
@[simp] theorem ofOption_some (b : β) : ofOption (some b) = next b := rfl
@[simp] theorem ofOption_none : ofOption (none : Option β) = fault := rfl

theorem bind_eq_next {x : Outcome β} {f : β → Outcome γ} {c : γ} :
    (x >>= f) = next c ↔ ∃ b, x = next b ∧ f b = next c := by
  cases x <;> simp

theorem bind_eq_exit {x : Outcome β} {f : β → Outcome γ} :
    (x >>= f) = exit ↔ x = exit ∨ ∃ b, x = next b ∧ f b = exit := by
  cases x <;> simp

theorem bind_eq_fault {x : Outcome β} {f : β → Outcome γ} :
    (x >>= f) = fault ↔ x = fault ∨ ∃ b, x = next b ∧ f b = fault := by
  cases x <;> simp

theorem ofOption_eq_next {x : Option β} {b : β} : ofOption x = next b ↔ x = some b := by
  cases x <;> simp

theorem toOption_eq_some {x : Outcome β} {b : β} : x.toOption = some b ↔ x = next b := by
  cases x <;> simp [toOption]

end Outcome

end MultiPortConvertor.Lib.Outcomes
