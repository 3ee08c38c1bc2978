import Discordium.Lib.Maps

/-!
# Lib — Totals

The sum of a measure over the values of an ordered map, and how it moves when a key is entered,
replaced or removed and when the map is filtered.
-/

namespace Lib
open Std

variable {κ β : Type} [Ord κ] [TransOrd κ] [LawfulEqOrd κ]

/-- The sum of a measure over the values of a map. -/
def total (f : β → ℕ) (t : ExtTreeMap κ β) : ℕ := (t.toList.map fun entry => f entry.2).sum

omit [LawfulEqOrd κ] in
theorem nodup_toList (t : ExtTreeMap κ β) : t.toList.Nodup :=
  ExtTreeMap.distinct_keys_toList.imp fun hne heq => hne (by rw [heq]; exact ReflCmp.compare_self)

theorem toList_insert_perm [DecidableEq κ] (t : ExtTreeMap κ β) (k : κ) (v : β) :
    (t.insert k v).toList.Perm ((k, v) :: (t.erase k).toList) := by
  refine (List.perm_ext_iff_of_nodup (nodup_toList _) ?_).mpr fun ⟨a, w⟩ => ?_
  · refine List.nodup_cons.mpr ⟨?_, nodup_toList _⟩
    rw [ExtTreeMap.mem_toList_iff_getElem?_eq_some, lookup_erase]
    simp
  · rw [ExtTreeMap.mem_toList_iff_getElem?_eq_some, lookup_insert, List.mem_cons,
      ExtTreeMap.mem_toList_iff_getElem?_eq_some, lookup_erase, Prod.mk.injEq]
    by_cases h : k = a
    · simp [h, eq_comm]
    · simp [h, Ne.symm h]

theorem total_insert [DecidableEq κ] (f : β → ℕ) (t : ExtTreeMap κ β) (k : κ) (v : β) :
    total f (t.insert k v) = f v + total f (t.erase k) := by
  unfold total
  rw [((toList_insert_perm t k v).map _).sum_eq, List.map_cons, List.sum_cons]

variable {t u : ExtTreeMap κ β} {k : κ} {v : β} {f : β → ℕ}

theorem erase_of_none [DecidableEq κ] (h : t[k]? = none) : t.erase k = t :=
  ExtTreeMap.ext_getElem? fun a => by
    rw [lookup_erase]
    split_ifs with hk
    · rw [← hk, h]
    · rfl

theorem insert_of_some [DecidableEq κ] (h : t[k]? = some v) :
    t.insert k v = t :=
  ExtTreeMap.ext_getElem? fun a => by
    rw [lookup_insert]
    split_ifs with hk
    · rw [← hk, h]
    · rfl

theorem total_erase [DecidableEq κ] (f : β → ℕ) (h : t[k]? = some v) :
    total f t = f v + total f (t.erase k) := by
  rw [← total_insert, insert_of_some h]

theorem le_total [DecidableEq κ] (f : β → ℕ) (h : t[k]? = some v) :
    f v ≤ total f t := by
  rw [total_erase f h]
  exact Nat.le_add_right _ _

/-- Replacing a value moves the total by the difference. -/
theorem total_replace [DecidableEq κ] (f : β → ℕ) {old : β}
    (hold : t[k]? = some old) (new : β) : total f (t.insert k new) + f old = total f t + f new := by
  rw [total_insert, total_erase f hold]
  omega

/-- Entering a value moves the total by its measure, less that of the value it replaces. -/
theorem total_put [DecidableEq κ] (f : β → ℕ) (t : ExtTreeMap κ β) (k : κ) (v : β) :
    total f (t.insert k v) + t[k]?.elim 0 f = total f t + f v := by
  cases h : t[k]? with
  | none => rw [total_insert, erase_of_none h, Option.elim_none, Nat.add_zero, Nat.add_comm]
  | some old => exact total_replace f h v

omit [LawfulEqOrd κ] in
/-- The number of entries is a total. -/
theorem total_one (t : ExtTreeMap κ β) : total (fun _ => 1) t = t.size := by
  unfold total
  rw [List.map_const', List.sum_replicate, smul_eq_mul, Nat.mul_one, ExtTreeMap.length_toList]

omit [LawfulEqOrd κ] in
theorem total_map (f : β → ℕ) (t : ExtTreeMap κ β) (g : κ → β → β) (hg : ∀ k v, f (g k v) = f v) :
    total f (t.map g) = total f t := by
  unfold total
  rw [ExtTreeMap.toList_map, List.map_map]
  exact congrArg _ (List.map_congr_left fun entry _ => hg entry.1 entry.2)

omit [LawfulEqOrd κ] in
/-- A map of the values is a change of the measure. -/
theorem total_comp (f : β → ℕ) (t : ExtTreeMap κ β) (g : β → β) :
    total f (t.map fun _ v => g v) = total (fun v => f (g v)) t := by
  unfold total
  rw [ExtTreeMap.toList_map, List.map_map]
  rfl

/-- Two maps with equal measures under every key have equal totals. -/
theorem total_congr (h : ∀ k : κ, t[k]?.map f = u[k]?.map f) :
    total f t = total f u := by
  have hlist : ∀ t : ExtTreeMap κ β,
      t.toList.map (fun entry => f entry.2) = (t.map fun _ v => f v).toList.map Prod.snd := by
    intro t
    rw [ExtTreeMap.toList_map, List.map_map]
    rfl
  have hmap : (t.map fun _ v => f v) = u.map fun _ v => f v :=
    ExtTreeMap.ext_getElem? fun k => by rw [ExtTreeMap.getElem?_map, ExtTreeMap.getElem?_map, h k]
  rw [total, total, hlist, hlist, hmap]

/-- A measure that is no larger on any value of the map. -/
theorem total_le_total {g : β → ℕ} (h : ∀ (k : κ) v, t[k]? = some v → f v ≤ g v) :
    total f t ≤ total g t := by
  unfold total
  refine List.sum_le_sum fun entry hentry => ?_
  exact h entry.1 entry.2 (ExtTreeMap.mem_toList_iff_getElem?_eq_some.mp hentry)

/-- A total of values that are all bounded. -/
theorem total_le_mul {c : ℕ} (h : ∀ (k : κ) v, t[k]? = some v → f v ≤ c) :
    total f t ≤ t.size * c := by
  refine (total_le_total h).trans ?_
  unfold total
  rw [List.map_const', List.sum_replicate, smul_eq_mul, ExtTreeMap.length_toList]

omit [LawfulEqOrd κ] in
/-- Counting the values that meet a condition is a total. -/
theorem length_filter_values (p : β → Bool) (t : ExtTreeMap κ β) :
    ((values t).filter p).length = total (fun v => if p v then 1 else 0) t := by
  unfold values total
  induction t.toList with
  | nil => rfl
  | cons entry entries ih =>
    by_cases h : p entry.2 = true
    · simp [h, ih, Nat.add_comm]
    · simp [h, ih]

/-- The entries of a map put over those of another with other keys. -/
theorem total_foldl_entries [DecidableEq κ] (f : β → ℕ) (hapart : ∀ k, k ∈ t → u[k]? = none) :
    total f (t.foldl (fun u k v => u.insert k v) u) = total f t + total f u := by
  have hlist : ∀ (entries : List (κ × β)) (u : ExtTreeMap κ β),
      entries.Pairwise (fun p q => p.1 ≠ q.1) → (∀ entry ∈ entries, u[entry.1]? = none) →
      total f (entries.foldl (fun u entry => u.insert entry.1 entry.2) u) =
        (entries.map fun entry => f entry.2).sum + total f u := by
    intro entries
    induction entries with
    | nil => exact fun u _ _ => (Nat.zero_add _).symm
    | cons entry entries ih =>
      intro u hdistinct hnone
      obtain ⟨hfirst, hrest⟩ := List.pairwise_cons.mp hdistinct
      rw [List.foldl_cons, ih _ hrest, total_insert, erase_of_none (hnone entry List.mem_cons_self),
        List.map_cons, List.sum_cons]
      · omega
      · intro other hother
        rw [lookup_insert, if_neg (hfirst other hother)]
        exact hnone other (List.mem_cons_of_mem _ hother)
  rw [ExtTreeMap.foldl_eq_foldl_toList]
  refine hlist t.toList u ?_ fun entry hentry => hapart entry.1 ?_
  · exact ExtTreeMap.distinct_keys_toList.imp fun hne heq =>
      hne (by rw [heq]; exact ReflCmp.compare_self)
  · rw [ExtTreeMap.mem_iff_isSome_getElem?, ExtTreeMap.mem_toList_iff_getElem?_eq_some.mp hentry]
    rfl

/-- One value entered under every key of a list of new keys. -/
theorem total_foldl_insert [DecidableEq κ] (f : β → ℕ) (v : β) {keys : List κ}
    (hnodup : keys.Nodup) (hfresh : ∀ k ∈ keys, t[k]? = none) :
    total f (keys.foldl (fun t k => t.insert k v) t) = keys.length * f v + total f t := by
  induction keys generalizing t with
  | nil => simp
  | cons k keys ih =>
    obtain ⟨hk, hrest⟩ := List.nodup_cons.mp hnodup
    rw [List.foldl_cons, ih hrest, total_insert, erase_of_none (hfresh k List.mem_cons_self),
      List.length_cons, Nat.succ_mul, Nat.add_assoc]
    intro other hother
    rw [lookup_insert, if_neg (by rintro rfl; exact hk hother)]
    exact hfresh other (List.mem_cons_of_mem _ hother)

omit [LawfulEqOrd κ] in
theorem total_empty (f : β → ℕ) : total f (∅ : ExtTreeMap κ β) = 0 := by
  have hnil : (∅ : ExtTreeMap κ β).toList = [] :=
    List.eq_nil_of_length_eq_zero (by rw [ExtTreeMap.length_toList, ExtTreeMap.size_empty])
  rw [total, hnil, List.map_nil, List.sum_nil]

omit [LawfulEqOrd κ] in
/-- A filter splits the total. -/
theorem total_filter (f : β → ℕ) (t : ExtTreeMap κ β) (p : κ → β → Bool) :
    total f t = total f (t.filter p) + total f (t.filter fun k v => !p k v) := by
  unfold total
  rw [ExtTreeMap.toList_filter, ExtTreeMap.toList_filter]
  induction t.toList with
  | nil => rfl
  | cons entry entries ih =>
    by_cases h : p entry.1 entry.2 = true
    · simp [h, ih, Nat.add_assoc]
    · simp [h, ih, Nat.add_left_comm]

end Lib
