import Mathlib

/-!
# Lib — Register

Last-writer-wins registers.  Every message has a key in a linear order; a register keeps the message
with the greatest key it has seen.  What it keeps is the maximum of the messages written, so it
depends neither on their order nor on their repetition, once a key names one message.
-/

namespace Lib

variable {μ κ : Type*} [LinearOrder κ]

/-- The register after one more message. -/
def write (key : μ → κ) (register : Option μ) (m : μ) : Option μ :=
  match register with
  | none => some m
  | some w => if key w < key m then some m else some w

/-- The register after a list of messages is their maximum. -/
theorem foldl_write (key : μ → κ) (ms : List μ) : ms.foldl (write key) none = ms.argmax key := by
  induction ms using List.reverseRecOn with
  | nil => rfl
  | append_singleton ms m ih =>
    rw [List.foldl_append, ih, List.argmax_concat]
    cases ms.argmax key <;> rfl

variable {key : μ → κ}

/-- A message that is no greater than the one kept changes nothing. -/
theorem write_of_le {w m : μ} (h : key m ≤ key w) : write key (some w) m = some w :=
  if_neg (not_lt.mpr h)

/-- A message at least as great is kept, where a key names one message. -/
theorem write_of_ge {w m : μ} (hinj : key w = key m → w = m) (h : key w ≤ key m) :
    write key (some w) m = some m := by
  rcases h.eq_or_lt with heq | hlt
  · rw [hinj heq]
    exact write_of_le le_rfl
  · exact if_pos hlt

/-- **Convergence.**  Two lists with the same members have the same maximum, where a key names one
message. -/
theorem argmax_eq_of_mem_iff {ms ns : List μ} (hmem : ∀ m, m ∈ ms ↔ m ∈ ns)
    (hinj : ∀ m ∈ ms, ∀ n ∈ ms, key m = key n → m = n) : ms.argmax key = ns.argmax key := by
  cases hm : ms.argmax key with
  | none =>
    have hnil : ms = [] := List.argmax_eq_none.mp hm
    have hnil' : ns = [] := List.eq_nil_iff_forall_not_mem.mpr fun n hn => by
      simpa [hnil] using (hmem n).mpr hn
    rw [hnil']
    rfl
  | some w =>
    have hw : w ∈ ms := List.argmax_mem hm
    cases hn : ns.argmax key with
    | none =>
      rw [List.argmax_eq_none.mp hn] at hmem
      exact absurd ((hmem w).mp hw) (by simp)
    | some v =>
      have hv : v ∈ ms := (hmem v).mpr (List.argmax_mem hn)
      have hvw : key v ≤ key w := List.le_of_mem_argmax hv hm
      have hwv : key w ≤ key v := List.le_of_mem_argmax ((hmem w).mp hw) hn
      rw [hinj w hw v hv (le_antisymm hwv hvw)]

end Lib
