import Mathlib.Logic.Relation

/-!
# Lib — Worklist

A worklist that closes a set of roots under a relation.  What is pending and what has been visited
are predicates, so that nothing depends on how a program keeps them.

`Covers` is the invariant, `Covers.visit` keeps it when one pending element is visited and its
successors are noted, and `Covers.complete` says what has been visited once nothing is pending.
-/

namespace Lib
open Relation

variable {α : Type}

/-- Everything noted can be reached, the roots are noted, and so are the successors of what was
visited. -/
structure Covers (edge : α → α → Prop) (roots pending visited : α → Prop) : Prop where
  sound : ∀ a, pending a ∨ visited a → ∃ root, roots root ∧ ReflTransGen edge root a
  roots : ∀ a, roots a → pending a ∨ visited a
  closed : ∀ a, visited a → ∀ b, edge a b → pending b ∨ visited b

namespace Covers
variable {edge : α → α → Prop} {roots pending pending' visited visited' : α → Prop}

theorem start (h : ∀ a, ¬visited a) : Covers edge roots roots visited where
  sound a ha := ⟨a, ha.resolve_right (h a), .refl⟩
  roots _ ha := .inl ha
  closed a ha := (h a ha).elim

theorem visit {a : α} (h : Covers edge roots pending visited) (ha : pending a)
    (hvisited : ∀ b, visited' b ↔ b = a ∨ visited b)
    (hnoted : ∀ b, pending' b ∨ visited' b ↔ (pending b ∨ visited b) ∨ edge a b) :
    Covers edge roots pending' visited' where
  sound b hb := by
    rcases (hnoted b).mp hb with hb | hedge
    · exact h.sound b hb
    · obtain ⟨root, hroot, hreach⟩ := h.sound a (.inl ha)
      exact ⟨root, hroot, hreach.tail hedge⟩
  roots b hb := (hnoted b).mpr (.inl (h.roots b hb))
  closed b hb c hedge := by
    refine (hnoted c).mpr ?_
    rcases (hvisited b).mp hb with rfl | hb
    · exact .inr hedge
    · exact .inl (h.closed b hb c hedge)

/-- **The closure is complete** once nothing is pending. -/
theorem complete (h : Covers edge roots pending visited) (hdone : ∀ a, ¬pending a) (a : α) :
    visited a ↔ ∃ root, roots root ∧ ReflTransGen edge root a := by
  constructor
  · exact fun ha => h.sound a (.inr ha)
  rintro ⟨root, hroot, hreach⟩
  induction hreach with
  | refl => exact (h.roots root hroot).resolve_left (hdone root)
  | tail _ hedge ih => exact (h.closed _ ih _ hedge).resolve_left (hdone _)

end Covers
end Lib
