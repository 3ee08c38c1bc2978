import Mathlib.Algebra.BigOperators.Group.List.Basic
import Mathlib.Tactic.Linarith

/-!
# Lib — Bucket

A token bucket over a log of what was spent.  Each entry of the log is a time and an amount.  Tokens
accrue at a rate up to a burst, and an amount is taken from them at the time they were last
refilled.

**No window gets more than its share** (`Metered.window_le`): what is spent between two times is at
most the burst and what the rate gives in between.
-/

namespace Lib

/-- What was spent from one time to another. -/
def spentWithin (t₁ t₂ : ℕ) (log : List (ℕ × ℕ)) : ℕ :=
  ((log.filter fun entry => t₁ ≤ entry.1 && entry.1 ≤ t₂).map Prod.snd).sum

/-- What was spent from a time on. -/
def spentSince (t : ℕ) (log : List (ℕ × ℕ)) : ℕ :=
  ((log.filter fun entry => t ≤ entry.1).map Prod.snd).sum

theorem spentWithin_cons (t₁ t₂ : ℕ) (entry : ℕ × ℕ) (log : List (ℕ × ℕ)) :
    spentWithin t₁ t₂ (entry :: log) =
      (if t₁ ≤ entry.1 ∧ entry.1 ≤ t₂ then entry.2 else 0) + spentWithin t₁ t₂ log := by
  unfold spentWithin
  by_cases h : t₁ ≤ entry.1 ∧ entry.1 ≤ t₂ <;> simp [h]

theorem spentSince_cons (t : ℕ) (entry : ℕ × ℕ) (log : List (ℕ × ℕ)) :
    spentSince t (entry :: log) = (if t ≤ entry.1 then entry.2 else 0) + spentSince t log := by
  unfold spentSince
  by_cases h : t ≤ entry.1 <;> simp [h]

theorem spentWithin_le_since (t₁ t₂ : ℕ) (log : List (ℕ × ℕ)) :
    spentWithin t₁ t₂ log ≤ spentSince t₁ log := by
  induction log with
  | nil => exact le_rfl
  | cons entry log ih =>
    rw [spentWithin_cons, spentSince_cons]
    split_ifs <;> omega

theorem spentSince_eq_zero {t : ℕ} {log : List (ℕ × ℕ)} (h : ∀ entry ∈ log, entry.1 < t) :
    spentSince t log = 0 := by
  have hnone : log.filter (fun entry => decide (t ≤ entry.1)) = [] :=
    List.filter_eq_nil_iff.mpr fun entry hentry => by simpa using h entry hentry
  rw [spentSince, hnone]
  rfl

/-- The tokens and the log of a bucket that was last refilled at a time. -/
structure Metered (rate burst now tokens : ℕ) (log : List (ℕ × ℕ)) : Prop where
  capped : tokens ≤ burst
  past : ∀ entry ∈ log, entry.1 ≤ now
  since : ∀ t ≤ now, spentSince t log + tokens ≤ burst + rate * (now - t)
  within : ∀ t₁ t₂, t₁ ≤ t₂ → t₂ < now → spentWithin t₁ t₂ log ≤ burst + rate * (t₂ - t₁)

namespace Metered
variable {rate burst now tokens : ℕ} {log : List (ℕ × ℕ)}

theorem full (rate burst now : ℕ) : Metered rate burst now burst [] where
  capped := le_rfl
  past := by simp
  since _ _ := by simp [spentSince]
  within _ _ _ _ := by simp [spentWithin]

section
variable (h : Metered rate burst now tokens log)
include h

/-- **No window gets more than its share.** -/
theorem window_le {t₁ t₂ : ℕ} (ht : t₁ ≤ t₂) :
    spentWithin t₁ t₂ log ≤ burst + rate * (t₂ - t₁) := by
  rcases lt_or_ge t₂ now with hpast | hnow
  · exact h.within t₁ t₂ ht hpast
  refine (spentWithin_le_since t₁ t₂ log).trans ?_
  rcases le_or_gt t₁ now with hstart | hstart
  · calc spentSince t₁ log ≤ burst + rate * (now - t₁) := (Nat.le_add_right _ _).trans (h.since
      t₁ hstart)
      _ ≤ burst + rate * (t₂ - t₁) := Nat.add_le_add_left (Nat.mul_le_mul_left _ (by omega)) _
  · rw [spentSince_eq_zero fun entry hentry => (h.past entry hentry).trans_lt hstart]
    exact Nat.zero_le _

theorem refill {now' : ℕ} (hnow : now ≤ now') :
    Metered rate burst now' (min (tokens + rate * (now' - now)) burst) log where
  capped := min_le_right _ _
  past entry hentry := (h.past entry hentry).trans hnow
  since t ht := by
    rcases le_or_gt t now with hstart | hstart
    · have hsplit : rate * (now' - t) = rate * (now' - now) + rate * (now - t) := by
        rw [← Nat.mul_add]
        congr 1
        omega
      have hbefore := h.since t hstart
      have htokens := min_le_left (tokens + rate * (now' - now)) burst
      omega
    · rw [spentSince_eq_zero fun entry hentry => (h.past entry hentry).trans_lt hstart]
      exact (Nat.zero_add _).le.trans ((min_le_right _ _).trans (Nat.le_add_right _ _))
  within _ _ ht _ := h.window_le ht

theorem spend {amount : ℕ} (hamount : amount ≤ tokens) :
    Metered rate burst now (tokens - amount) ((now, amount) :: log) where
  capped := (Nat.sub_le _ _).trans h.capped
  past entry hentry := by
    rcases List.mem_cons.mp hentry with rfl | hentry
    · exact le_rfl
    · exact h.past entry hentry
  since t ht := by
    have hbefore := h.since t ht
    rw [spentSince_cons, if_pos ht]
    dsimp only
    omega
  within t₁ t₂ ht hpast := by
    rw [spentWithin_cons, if_neg fun hin => absurd hin.2 (not_le.mpr hpast), Nat.zero_add]
    exact h.within t₁ t₂ ht hpast

end

end Metered
end Lib
