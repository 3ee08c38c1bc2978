import Mathlib

/-!
# Lib — Search

The binary search of the standard library over items in increasing order of their keys.  The loop
halves a window of positions and keeps the first of it where the key is not past the one that is
searched for; the item it ends at is then compared.  A linear search for an item that is the only
one of its kind does not depend on the order of the items.
-/

namespace Lib

variable {α : Type} (key : α → ℕ) (wanted : ℕ) (items : List α)

/-- The loop, from a window of `size` positions at `base`. -/
def searchBase : ℕ → ℕ → ℕ → ℕ
  | 0, base, _ => base
  | fuel + 1, base, size =>
    if size ≤ 1 then base
    else
      let half := size / 2
      let mid := base + half
      searchBase fuel (if items[mid]?.any (wanted < key ·) then base else mid) (size - half)

/-- `binary_search_by_key`: the position of an item with the key. -/
def binarySearchByKey : Option ℕ :=
  let base := searchBase key wanted items items.length 0 items.length
  if items[base]?.any (key · = wanted) then some base else none

variable {key wanted items}

section
variable (hsorted : items.Pairwise (key · < key ·))
include hsorted

theorem key_lt_of_lt {i j : ℕ} {a b : α} (hij : i < j)
    (ha : items[i]? = some a) (hb : items[j]? = some b) : key a < key b := by
  obtain ⟨hi, rfl⟩ := List.getElem?_eq_some_iff.mp ha
  obtain ⟨hj, rfl⟩ := List.getElem?_eq_some_iff.mp hb
  exact List.pairwise_iff_getElem.mp hsorted i j hi hj hij

/-- **The loop ends at the item**, if it is in the window. -/
theorem searchBase_eq {i : ℕ} {a : α}
    (ha : items[i]? = some a) (hkey : key a = wanted) {fuel base size : ℕ} (hbase : base ≤ i)
    (hsize : i < base + size) (hlength : base + size ≤ items.length) (hfuel : size ≤ fuel) :
    searchBase key wanted items fuel base size = i := by
  induction fuel generalizing base size with
  | zero => omega
  | succ fuel ih =>
    unfold searchBase
    split
    case isTrue hone => omega
    case isFalse hmany =>
      dsimp only
      have hmid : base + size / 2 < items.length := by omega
      obtain ⟨b, hb⟩ : ∃ b, items[base + size / 2]? = some b := ⟨_, List.getElem?_eq_getElem hmid⟩
      rw [hb, Option.any_some]
      split
      case isTrue hpast =>
        have hlt : i < base + size / 2 := by
          by_contra hle
          rcases (not_lt.mp hle).eq_or_lt with heq | hlt
          · rw [heq, ha] at hb
            cases hb
            simp [hkey] at hpast
          · have := key_lt_of_lt hsorted hlt hb ha
            simp at hpast
            omega
        exact ih hbase (by omega) (by omega) (by omega)
      case isFalse hnot =>
        have hle : base + size / 2 ≤ i := by
          by_contra hlt
          have := key_lt_of_lt hsorted (not_le.mp hlt) ha hb
          simp at hnot
          omega
        exact ih hle (by omega) (by omega) (by omega)

/-- **Searching finds the item with the key.** -/
theorem binarySearchByKey_bind :
    (binarySearchByKey key wanted items).bind (items[·]?) = items.find? (key · = wanted) := by
  cases hfind : items.find? (key · = wanted) with
  | none =>
    have hnone : ∀ a ∈ items, key a ≠ wanted := by simpa using List.find?_eq_none.mp hfind
    unfold binarySearchByKey
    dsimp only
    split
    case isTrue hany =>
      cases hitem : items[searchBase key wanted items items.length 0 items.length]? with
      | none => simp [hitem] at hany
      | some a => exact absurd (by simpa [hitem] using hany) (hnone a (List.mem_of_getElem? hitem))
    case isFalse => rfl
  | some a =>
    have hkey : key a = wanted := by simpa using List.find?_some hfind
    obtain ⟨i, hi⟩ := List.mem_iff_getElem?.mp (List.mem_of_find?_eq_some hfind)
    have hlength := (List.getElem?_eq_some_iff.mp hi).1
    have hbase :=
      searchBase_eq hsorted hi hkey (Nat.zero_le i) (by omega) (Nat.zero_add _).le
        (le_refl items.length)
    rw [binarySearchByKey, hbase, hi, Option.any_some, decide_eq_true hkey, if_pos rfl,
      Option.bind_some, hi]

end

/-! ### The only item of a kind -/

section unique
variable {items' : List α} {p : α → Bool}

theorem find?_eq_some_iff_of_unique (hunique : ∀ a ∈ items, ∀ b ∈ items, p a → p b →
    a = b) {a : α} :
    items.find? p = some a ↔ a ∈ items ∧ p a = true := by
  refine ⟨fun h => ⟨List.mem_of_find?_eq_some h, List.find?_some h⟩, fun ⟨hmem, hp⟩ => ?_⟩
  cases hfind : items.find? p with
  | none => exact absurd hp (List.find?_eq_none.mp hfind a hmem)
  | some b => rw [hunique b (List.mem_of_find?_eq_some hfind) a hmem (List.find?_some hfind) hp]

theorem find?_perm_of_unique (hunique : ∀ a ∈ items, ∀ b ∈ items, p a → p b → a = b)
    (hperm : items'.Perm items) : items'.find? p = items.find? p := by
  have hunique' : ∀ a ∈ items', ∀ b ∈ items', p a → p b → a = b := fun a ha b hb =>
    hunique a (hperm.mem_iff.mp ha) b (hperm.mem_iff.mp hb)
  ext a
  rw [find?_eq_some_iff_of_unique hunique', find?_eq_some_iff_of_unique hunique, hperm.mem_iff]

end unique
end Lib
