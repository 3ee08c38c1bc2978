import Mathlib

/-!
# Lib — Maps

Look-ups in an ordered map or set after an update, with the key comparison spelled as equality; and
orders on keys that are records, compared field by field.
-/

namespace Lib
open Std

/-- A comparison through an injective function into a lawful order is lawful. -/
theorem lawfulEqCmp_compareOn {α β : Type} [Ord β] [LawfulEqOrd β] {f : α → β}
    (hf : Function.Injective f) : LawfulEqCmp (compareOn f) where
  compare_self {a} := @ReflCmp.compare_self β compare _ (f a)
  eq_of_compare {a b} h := hf (@LawfulEqCmp.eq_of_compare β compare _ (f a) (f b) h)

variable {κ β : Type} [Ord κ] [TransOrd κ] [LawfulEqOrd κ]

theorem lookup_insert [DecidableEq κ] (t : ExtTreeMap κ β) (k a : κ) (v : β) :
    (t.insert k v)[a]? = if k = a then some v else t[a]? := by
  simp only [ExtTreeMap.getElem?_insert, LawfulEqCmp.compare_eq_iff_eq]

theorem lookup_erase [DecidableEq κ] (t : ExtTreeMap κ β) (k a : κ) :
    (t.erase k)[a]? = if k = a then none else t[a]? := by
  simp only [ExtTreeMap.getElem?_erase, LawfulEqCmp.compare_eq_iff_eq]

omit [LawfulEqOrd κ] in
theorem contains_eq_isSome (t : ExtTreeMap κ β) (a : κ) : t.contains a = t[a]?.isSome :=
  (ExtTreeMap.isSome_getElem?_eq_contains).symm

variable {t : ExtTreeMap κ β} {k : κ} {v : β}

omit [LawfulEqOrd κ] in
theorem contains_of_lookup (h : t[k]? = some v) :
    t.contains k = true := by
  rw [contains_eq_isSome, h, Option.isSome_some]

omit [LawfulEqOrd κ] in
theorem size_erase_add_one (h : t[k]? = some v) :
    (t.erase k).size + 1 = t.size := by
  have hne : t.size ≠ 0 := by
    intro hzero
    rw [ExtTreeMap.eq_empty_iff_size_eq_zero.mpr hzero, ExtTreeMap.getElem?_empty] at h
    cases h
  rw [ExtTreeMap.size_erase, if_pos (contains_of_lookup h)]
  omega

theorem modify_insert [DecidableEq κ] (t : ExtTreeMap κ β) (k : κ) (v : β) (f : β → β) :
    (t.insert k v).modify k f = t.insert k (f v) := by
  refine ExtTreeMap.ext_getElem? fun a => ?_
  rw [ExtTreeMap.getElem?_modify, lookup_insert, lookup_insert, lookup_insert]
  by_cases h : k = a <;> simp [h]

theorem mem_set_insert (s : ExtTreeSet κ) (k a : κ) : a ∈ s.insert k ↔ a = k ∨ a ∈ s := by
  rw [ExtTreeSet.mem_insert, LawfulEqCmp.compare_eq_iff_eq, eq_comm]

theorem mem_set_erase (s : ExtTreeSet κ) (k a : κ) : a ∈ s.erase k ↔ a ≠ k ∧ a ∈ s := by
  rw [ExtTreeSet.mem_erase, ne_eq, LawfulEqCmp.compare_eq_iff_eq, ne_comm]

theorem mem_set_filter (s : ExtTreeSet κ) (f : κ → Bool) (a : κ) :
    a ∈ s.filter f ↔ a ∈ s ∧ f a = true := by
  simp only [ExtTreeSet.mem_filter, ExtTreeSet.get_eq, exists_prop]

theorem mem_foldl_insert (keys : List κ) (s : ExtTreeSet κ) (a : κ) :
    a ∈ keys.foldl ExtTreeSet.insert s ↔ a ∈ keys ∨ a ∈ s := by
  induction keys generalizing s with
  | nil => simp
  | cons k keys ih => rw [List.foldl_cons, ih, mem_set_insert, List.mem_cons,
      or_left_comm, or_assoc]

theorem mem_keys_iff : k ∈ t.keys ↔ ∃ v, t[k]? = some v := by
  rw [ExtTreeMap.mem_keys, ExtTreeMap.mem_iff_isSome_getElem?, Option.isSome_iff_exists]

/-- A fold that enters one value under every key of a list. -/
theorem lookup_foldl_insert [DecidableEq κ] (keys : List κ) (v : β) (t : ExtTreeMap κ β) (a : κ) :
    (keys.foldl (fun t k => t.insert k v) t)[a]? = if a ∈ keys then some v else t[a]? := by
  induction keys generalizing t with
  | nil => simp
  | cons k keys ih =>
    rw [List.foldl_cons, ih, lookup_insert]
    by_cases h : k = a <;> by_cases hm : a ∈ keys <;> simp [h, hm, Ne.symm]

theorem lookup_foldl_erase [DecidableEq κ] (keys : List κ) (t : ExtTreeMap κ β) (a : κ) :
    (keys.foldl ExtTreeMap.erase t)[a]? = if a ∈ keys then none else t[a]? := by
  induction keys generalizing t with
  | nil => simp
  | cons k keys ih =>
    rw [List.foldl_cons, ih, lookup_erase]
    by_cases h : k = a <;> by_cases hm : a ∈ keys <;> simp [h, hm, Ne.symm]

/-- A fold that enters the entries of one map over those of another, each given what is there. -/
theorem lookup_foldl_merge {γ : Type} [DecidableEq κ] (f : Option β → γ → β) (t : ExtTreeMap κ γ)
    (u : ExtTreeMap κ β) (a : κ) :
    (t.foldl (fun u k v => u.insert k (f u[k]? v)) u)[a]? = t[a]?.elim u[a]? fun v => some
    (f u[a]? v) := by
  have hlist : ∀ (entries : List (κ × γ)) (u : ExtTreeMap κ β),
      entries.Pairwise (fun p q => p.1 ≠ q.1) →
      (∀ v, (a, v) ∈ entries →
        (entries.foldl (fun u entry => u.insert entry.1 (f u[entry.1]? entry.2)) u)[a]? =
          some (f u[a]? v)) ∧
      ((∀ v, (a, v) ∉ entries) →
        (entries.foldl (fun u entry => u.insert entry.1 (f u[entry.1]? entry.2)) u)[a]? =
          u[a]?) := by
    intro entries
    induction entries with
    | nil => exact fun u _ => ⟨by simp, fun _ => rfl⟩
    | cons entry entries ih =>
      intro u hdistinct
      obtain ⟨hfirst, hrest⟩ := List.pairwise_cons.mp hdistinct
      obtain ⟨hmem, hnot⟩ := ih (u.insert entry.1 (f u[entry.1]? entry.2)) hrest
      refine ⟨fun v hv => ?_, fun hv => ?_⟩
      · rcases List.mem_cons.mp hv with rfl | hv
        · rw [List.foldl_cons, hnot fun w hw => hfirst _ hw rfl, lookup_insert, if_pos rfl]
        · rw [List.foldl_cons, hmem v hv, lookup_insert, if_neg (hfirst _ hv)]
      · rw [List.foldl_cons, hnot fun w hw => hv w (List.mem_cons_of_mem _ hw),
          lookup_insert, if_neg]
        rintro rfl
        exact hv entry.2 List.mem_cons_self
  have hdistinct : t.toList.Pairwise fun p q => p.1 ≠ q.1 :=
    ExtTreeMap.distinct_keys_toList.imp fun hne heq => hne (by rw [heq]; exact ReflCmp.compare_self)
  rw [ExtTreeMap.foldl_eq_foldl_toList]
  obtain ⟨hmem, hnot⟩ := hlist t.toList u hdistinct
  cases hta : t[a]? with
  | none =>
    refine hnot fun v hv => ?_
    rw [ExtTreeMap.mem_toList_iff_getElem?_eq_some, hta] at hv
    cases hv
  | some v => exact hmem v (ExtTreeMap.mem_toList_iff_getElem?_eq_some.mpr hta)

/-- A fold that enters the entries of one map over those of another. -/
theorem lookup_foldl_entries [DecidableEq κ] (t u : ExtTreeMap κ β) (a : κ) :
    (t.foldl (fun u k v => u.insert k v) u)[a]? = (t[a]?).or u[a]? := by
  rw [lookup_foldl_merge (fun _ v => v)]
  cases t[a]? <;> rfl

/-- The values of a map in the order of their keys. -/
def values (t : ExtTreeMap κ β) : List β := t.toList.map Prod.snd

theorem mem_values : v ∈ values t ↔ ∃ k : κ, t[k]? = some v := by
  simp [values, ExtTreeMap.mem_toList_iff_getElem?_eq_some]

end Lib
