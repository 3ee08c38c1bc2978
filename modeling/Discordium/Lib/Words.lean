import Mathlib

/-!
# Lib — Words

Unsigned machine counters as natural numbers, with the arithmetic that can tell them apart from `ℕ`:
the checked sum and product of a `w`-bit word, its saturating sum and the checked difference.  A
call's answer is a value, an error, or the panic of a checked operation whose failure the program
rules out.
-/

namespace Lib

/-- The largest value of a `w`-bit word. -/
def wordMax (w : ℕ) : ℕ := 2 ^ w - 1

/-- The checked sum: nothing when the `w`-bit word would overflow. -/
def checkedAdd (w a b : ℕ) : Option ℕ :=
  if a + b ≤ wordMax w then some (a + b) else none

/-- The checked product: nothing when the `w`-bit word would overflow. -/
def checkedMul (w a b : ℕ) : Option ℕ :=
  if a * b ≤ wordMax w then some (a * b) else none

/-- The saturating sum of a `w`-bit word. -/
def saturatingAdd (w a b : ℕ) : ℕ := min (a + b) (wordMax w)

/-- `saturating_mul` on unsigned words. -/
def saturatingMul (w a b : ℕ) : ℕ := min (a * b) (wordMax w)

/-- The checked difference: nothing below zero. -/
def checkedSub (a b : ℕ) : Option ℕ :=
  if b ≤ a then some (a - b) else none

variable {w a b c : ℕ}

theorem checkedAdd_eq_some : checkedAdd w a b = some c ↔ c = a + b ∧ a + b ≤ wordMax w := by
  unfold checkedAdd
  split <;> simp_all [eq_comm]

/-- A checked sum within a limit. -/
theorem checkedAdd_any_le {n : ℕ} :
    (checkedAdd w a b).any (· ≤ n) = true ↔ a + b ≤ n ∧ a + b ≤ wordMax w := by
  unfold checkedAdd
  split <;> simp_all

theorem checkedMul_eq_some : checkedMul w a b = some c ↔ c = a * b ∧ a * b ≤ wordMax w := by
  unfold checkedMul
  split <;> simp_all [eq_comm]

theorem checkedSub_eq_some : checkedSub a b = some c ↔ b ≤ a ∧ c = a - b := by
  unfold checkedSub
  split <;> simp_all [eq_comm]

theorem checkedSub_eq_none : checkedSub a b = none ↔ a < b := by
  unfold checkedSub
  split <;> simp_all

/-- The answer of a call: a value, an error of its own, or a panic. -/
inductive Answer (ε α : Type) where
  | ok (value : α)
  | err (error : ε)
  | panic
  deriving DecidableEq

/-- What follows a value that is there by assertion: a panic if it is not. -/
def expecting {ε α β : Type} (value : Option α) (next : α → Answer ε β) : Answer ε β :=
  match value with
  | some a => next a
  | none => .panic

@[simp] theorem expecting_some {ε α β : Type} (a : α) (next : α → Answer ε β) :
    expecting (some a) next = next a := rfl

end Lib
