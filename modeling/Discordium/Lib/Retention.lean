import Mathlib

/-!
# Lib — Retention

What is kept of a growing log under a budget: its longest suffix that fits.  If a list that fits
keeps fitting when its last item goes, then the longest suffix of a longer log is among what was
kept of the shorter one, so a log can forget its front as it grows.
-/

namespace Lib

variable {α : Type} {fits : List α → Prop} {log kept : List α} {a : α}

/-- The longest suffix of a log that fits. -/
structure Longest (fits : List α → Prop) (log kept : List α) : Prop where
  suffix : kept <:+ log
  fit : fits kept
  longest : ∀ other, other <:+ log → fits other → other <:+ kept

theorem Longest.self (h : fits log) : Longest fits log log :=
  ⟨List.suffix_rfl, h, fun _ hother _ => hother⟩

/-- A log that does not fit loses its first item. -/
theorem Longest.cons (h : Longest fits log kept) (hlarge : ¬fits (a :: log)) :
    Longest fits (a :: log) kept := by
  refine ⟨h.suffix.trans (List.suffix_cons a log), h.fit, fun other hother hfits => ?_⟩
  rcases List.suffix_cons_iff.mp hother with rfl | hother
  · exact absurd hfits hlarge
  · exact h.longest other hother hfits

/-- **A growing log** keeps the longest part of what it has kept that leaves room for the new
item. -/
theorem Longest.snoc {left : List α} (h : Longest fits log kept)
    (hleft : Longest (fun items => fits (items ++ [a])) kept left)
    (hfits : ∀ items, fits (items ++ [a]) → fits items) :
    Longest fits (log ++ [a]) (left ++ [a]) := by
  refine ⟨List.suffix_append_self_iff.mpr (hleft.suffix.trans h.suffix), hleft.fit,
    fun other hother hfit => ?_⟩
  rcases List.suffix_concat_iff.mp hother with rfl | ⟨items, rfl, hitems⟩
  · exact List.nil_suffix
  · have hkept := h.longest items hitems (hfits items hfit)
    exact List.suffix_append_self_iff.mpr (hleft.longest items hkept hfit)

end Lib
