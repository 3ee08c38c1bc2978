import Discordium.Lib.Totals

/-!
# Lib — Window

Maps from ticks to records that hold one window of consecutive ticks.  A window grows at its end,
loses ticks at its beginning, and has the records of its ticks replaced; `Cut` is what is left of it
after some of the first ticks are gone.
-/

namespace Lib
open Std

variable {β : Type}

/-- The first tick of a map. -/
def firstTick (t : ExtTreeMap ℕ β) : Option ℕ := t.keys.head?

/-- The last tick of a map. -/
def lastTick (t : ExtTreeMap ℕ β) : Option ℕ := t.keys.getLast?

variable {t t' : ExtTreeMap ℕ β} {k n : ℕ}

theorem firstTick_eq_some :
    firstTick t = some k ↔ k ∈ t ∧ ∀ a ∈ t, k ≤ a := by
  rw [firstTick, ← ExtTreeMap.minKey?_eq_head?_keys, ExtTreeMap.minKey?_eq_some_iff_mem_and_forall]
  simp [Nat.isLE_compare]

theorem firstTick_eq_none : firstTick t = none ↔ t = ∅ := by
  rw [firstTick, ← ExtTreeMap.minKey?_eq_head?_keys, ExtTreeMap.minKey?_eq_none_iff]

theorem lastTick_eq_some :
    lastTick t = some k ↔ k ∈ t ∧ ∀ a ∈ t, a ≤ k := by
  rw [lastTick, ← ExtTreeMap.maxKey?_eq_getLast?_keys,
    ExtTreeMap.maxKey?_eq_some_iff_mem_and_forall]
  simp [Nat.isLE_compare]

theorem mem_iff_lookup : k ∈ t ↔ ∃ v, t[k]? = some v := by
  rw [ExtTreeMap.mem_iff_isSome_getElem?, Option.isSome_iff_exists]

/-- A map with fewer ticks is no larger. -/
theorem size_le_of_mem (h : ∀ k, k ∈ t' → k ∈ t) : t'.size ≤ t.size := by
  rw [← ExtTreeMap.length_keys, ← ExtTreeMap.length_keys]
  refine (List.subperm_of_subset ExtTreeMap.nodup_keys fun k hk => ?_).length_le
  exact ExtTreeMap.mem_keys.mpr (h k (ExtTreeMap.mem_keys.mp hk))

/-- The ticks of the map are consecutive. -/
def Contiguous (t : ExtTreeMap ℕ β) : Prop :=
  ∀ a b k, a ∈ t → b ∈ t → a ≤ k → k ≤ b → k ∈ t

/-- What is left of a map when its ticks before `n` are gone. -/
def Cut (t t' : ExtTreeMap ℕ β) (n : ℕ) : Prop :=
  ∀ k, t'[k]? = if k < n then none else t[k]?

/-! ### Cuts -/

theorem Cut.refl (t : ExtTreeMap ℕ β) : Cut t t 0 := fun _ => rfl

theorem Cut.trans {t'' : ExtTreeMap ℕ β} {n' : ℕ} (h : Cut t t' n) (h' : Cut t' t'' n') :
    Cut t t'' (max n n') := by
  intro k
  rw [h' k, h k]
  split_ifs <;> first | rfl | omega

theorem Cut.mem (h : Cut t t' n) : k ∈ t' ↔ n ≤ k ∧ k ∈ t := by
  rw [mem_iff_lookup, mem_iff_lookup, h k]
  split_ifs with hk
  · simp [Nat.not_le.mpr hk]
  · simp [Nat.not_lt.mp hk]

/-- The first tick is dropped. -/
theorem Cut.erase_first (h : firstTick t = some k) :
    Cut t (t.erase k) (k + 1) := by
  intro a
  rw [lookup_erase]
  split_ifs with hk ha ha
  · rfl
  · omega
  · -- a tick before the first
    refine (Option.eq_none_iff_forall_ne_some.mpr fun v hv => ?_)
    have := (firstTick_eq_some.mp h).2 a (mem_iff_lookup.mpr ⟨v, hv⟩)
    omega
  · rfl

/-! ### Consecutive ticks -/

theorem Contiguous.cut (h : Contiguous t) (hc : Cut t t' n) :
    Contiguous t' := by
  intro a b k ha hb hak hkb
  rw [hc.mem] at ha hb ⊢
  exact ⟨ha.1.trans hak, h a b k ha.2 hb.2 hak hkb⟩

/-- Only the ticks matter. -/
theorem Contiguous.congr (h : Contiguous t) (hmem : ∀ k, k ∈ t' ↔ k ∈ t) :
    Contiguous t' := by
  intro a b k ha hb hak hkb
  rw [hmem] at ha hb ⊢
  exact h a b k ha hb hak hkb

/-- The window grows by the next tick. -/
theorem Contiguous.insert_next (h : Contiguous t) (hn : lastTick t = some n)
    (v : β) : Contiguous (t.insert (n + 1) v) := by
  obtain ⟨hmem, hmax⟩ := lastTick_eq_some.mp hn
  have hin : ∀ k, k ∈ t.insert (n + 1) v ↔ k = n + 1 ∨ k ∈ t := by
    intro k
    rw [ExtTreeMap.mem_insert, LawfulEqCmp.compare_eq_iff_eq, eq_comm]
  intro a b k ha hb hak hkb
  rw [hin] at ha hb ⊢
  by_cases hk : k = n + 1
  · exact .inl hk
  · have hb' : b ≤ n + 1 := by
      rcases hb with rfl | hb
      · exact le_rfl
      · exact (hmax b hb).trans (Nat.le_succ n)
    have ha' : a ∈ t := ha.resolve_left (by omega)
    exact .inr (h a n k ha' hmem hak (by omega))

theorem mem_insert_self_iff {v : β} (h : n ∈ t) (k : ℕ) :
    k ∈ t.insert n v ↔ k ∈ t := by
  rw [ExtTreeMap.mem_insert, LawfulEqCmp.compare_eq_iff_eq]
  constructor
  · rintro (rfl | hk)
    · exact h
    · exact hk
  · exact .inr

end Lib
