import Mathlib

/-!
# Lib — Bytes

Unsigned words as bytes, the lowest first, and slices of byte strings with the bounds that indexing
checks.
-/

namespace Lib

/-- `to_le_bytes` of a word of `w` bytes. -/
def leBytes : ℕ → ℕ → List UInt8
  | 0, _ => []
  | w + 1, n => UInt8.ofNat n :: leBytes w (n / 256)

@[simp] theorem length_leBytes (w n : ℕ) : (leBytes w n).length = w := by
  induction w generalizing n with
  | zero => rfl
  | succ w ih => rw [leBytes, List.length_cons, ih]

/-- `from_le_bytes`. -/
def ofLeBytes : List UInt8 → ℕ
  | [] => 0
  | byte :: bytes => byte.toNat + 256 * ofLeBytes bytes

/-- A word that fits its bytes is read back. -/
theorem ofLeBytes_leBytes {w n : ℕ} (h : n < 256 ^ w) : ofLeBytes (leBytes w n) = n := by
  induction w generalizing n with
  | zero => exact (Nat.lt_one_iff.mp h).symm
  | succ w ih =>
    have hrest : n / 256 < 256 ^ w := Nat.div_lt_of_lt_mul (by rwa [Nat.pow_succ'] at h)
    rw [leBytes, ofLeBytes, ih hrest, UInt8.toNat_ofNat']
    exact Nat.mod_add_div n 256

/-! ### Slices -/

section slices
variable {α : Type}

/-- `xs[start..stop]`; nothing where the bounds are out of range. -/
def slice (xs : List α) (start stop : ℕ) : Option (List α) :=
  if start ≤ stop ∧ stop ≤ xs.length then some ((xs.take stop).drop start) else none

theorem slice_of_le {xs : List α} {start stop : ℕ} (hstart : start ≤ stop)
    (hstop : stop ≤ xs.length) : slice xs start stop = some ((xs.take stop).drop start) :=
  if_pos ⟨hstart, hstop⟩

/-- The slice up to the end. -/
theorem slice_end {xs : List α} {start : ℕ} (h : start ≤ xs.length) :
    slice xs start xs.length = some (xs.drop start) := by
  rw [slice_of_le h (Nat.le_refl _), List.take_length]

/-- The slice of one of three parts. -/
theorem slice_append (before middle after : List α) :
    slice (before ++ middle ++ after) before.length (before.length + middle.length) =
      some middle := by
  rw [slice_of_le (Nat.le_add_right _ _) (by simp), ← List.length_append, List.take_left,
    List.drop_left]

end slices
end Lib
