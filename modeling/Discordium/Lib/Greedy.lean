import Mathlib

/-!
# Lib — Greedy

A pass over a list that takes every item which passes a test of what was taken before.
`mem_greedy_iff` is what decides about an item: the test at its turn.  `load` is the total weight of
what was taken; it only grows along a pass.
-/

namespace Lib

variable {α : Type} {ok : List α → α → Bool} {taken : List α}

/-- What is taken from a list, after what was taken before. -/
def greedy (ok : List α → α → Bool) (taken : List α) (items : List α) : List α :=
  items.foldl (fun taken a => if ok taken a then taken ++ [a] else taken) taken

theorem greedy_cons (a : α) (items : List α) :
    greedy ok taken (a :: items) = greedy ok (if ok taken a then taken ++ [a] else taken) items :=
      rfl

theorem greedy_append (items items' : List α) :
    greedy ok taken (items ++ items') = greedy ok (greedy ok taken items) items' :=
  List.foldl_append

/-- The items taken are some of the list, in its order. -/
theorem greedy_eq_append (ok : List α → α → Bool) (taken items : List α) :
    ∃ new, greedy ok taken items = taken ++ new ∧ new.Sublist items := by
  induction items generalizing taken with
  | nil => exact ⟨[], (List.append_nil taken).symm, .slnil⟩
  | cons a items ih =>
    rw [greedy_cons]
    obtain ⟨new, hnew, hsub⟩ := ih (if ok taken a then taken ++ [a] else taken)
    split_ifs at hnew ⊢
    · exact ⟨a :: new, by rw [hnew, List.append_assoc, List.singleton_append], hsub.cons_cons a⟩
    · exact ⟨new, hnew, hsub.cons a⟩

theorem prefix_greedy (items : List α) : taken <+: greedy ok taken items := by
  obtain ⟨new, hnew, -⟩ := greedy_eq_append ok taken items
  exact ⟨new, hnew.symm⟩

variable {items before after : List α} {weight : α → ℕ}

/-- A pass that can take nothing any more. -/
theorem greedy_eq_self (h : ∀ a ∈ items, ok taken a = false) :
    greedy ok taken items = taken := by
  induction items with
  | nil => rfl
  | cons a items ih =>
    rw [greedy_cons, h a List.mem_cons_self]
    exact ih fun b hb => h b (List.mem_cons_of_mem a hb)

/-- **Invariant rule** of a pass. -/
theorem greedy_invariant {P : List α → Prop} (h : P taken)
    (hstep : ∀ taken a, a ∈ items → P taken → ok taken a = true → P (taken ++ [a])) :
    P (greedy ok taken items) := by
  induction items generalizing taken with
  | nil => exact h
  | cons a items ih =>
    rw [greedy_cons]
    refine ih ?_ fun taken b hb => hstep taken b (List.mem_cons_of_mem a hb)
    split_ifs with hok
    · exact hstep taken a List.mem_cons_self h hok
    · exact h

/-- What is taken at its turn stays taken. -/
theorem greedy_turn {a : α} (h : ok (greedy ok taken before) a = true) :
    greedy ok taken before ++ [a] <+: greedy ok taken (before ++ a :: after) := by
  rw [greedy_append, greedy_cons, if_pos h]
  exact prefix_greedy after

/-- **The test at its turn** decides about an item. -/
theorem mem_greedy_iff {a : α} (htaken : a ∉ taken) (hbefore : a ∉ before) (hafter : a ∉ after) :
    a ∈ greedy ok taken (before ++ a :: after) ↔ ok (greedy ok taken before) a = true := by
  constructor
  · intro hmem
    by_contra hok
    rw [greedy_append, greedy_cons, if_neg hok] at hmem
    obtain ⟨new, hnew, hsub⟩ := greedy_eq_append ok (greedy ok taken before) after
    obtain ⟨new', hnew', hsub'⟩ := greedy_eq_append ok taken before
    rw [hnew, hnew', List.mem_append, List.mem_append] at hmem
    rcases hmem with (hmem | hmem) | hmem
    · exact htaken hmem
    · exact hbefore (hsub'.subset hmem)
    · exact hafter (hsub.subset hmem)
  · exact fun hok => (greedy_turn hok).subset (List.mem_append_right _ List.mem_cons_self)

/-- The total weight of a list. -/
def load (weight : α → ℕ) (items : List α) : ℕ := (items.map weight).sum

theorem load_append (weight : α → ℕ) (items items' : List α) :
    load weight (items ++ items') = load weight items + load weight items' := by
  simp [load]

theorem load_singleton (weight : α → ℕ) (a : α) : load weight [a] = weight a := by
  simp [load]

theorem load_le_of_taken {items' : List α} (h : items <+: items') :
    load weight items ≤ load weight items' := by
  obtain ⟨rest, rfl⟩ := h
  rw [load_append]
  exact Nat.le_add_right _ _

/-- A pass that tests for room keeps within it. -/
theorem load_greedy_le {room : ℕ} (h : load weight taken ≤ room)
    (hok : ∀ taken a, ok taken a = true → weight a ≤ room - load weight taken) :
    load weight (greedy ok taken items) ≤ room := by
  refine greedy_invariant (P := fun taken => load weight taken ≤ room) h
    fun taken a _ htaken ha => ?_
  have hfits := hok taken a ha
  rw [load_append, load_singleton]
  omega

end Lib
