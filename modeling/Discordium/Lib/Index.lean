import Discordium.Lib.Maps

/-!
# Lib — Index

Reverse indices: sets of members filed under keys, where a key without members is not kept.  The
module has the two updates of such an index, one pair at a time and over the keys of one member,
what is filed after them, and how the number of keys moves.
-/

namespace Lib
open Std

variable {κ α : Type} [Ord κ] [TransOrd κ] [LawfulEqOrd κ] [Ord α] [TransOrd α] [LawfulEqOrd α]

/-- The members filed under a key. -/
def members (index : ExtTreeMap κ (ExtTreeSet α)) (k : κ) : ExtTreeSet α := index[k]?.getD ∅

def addMember (index : ExtTreeMap κ (ExtTreeSet α)) (k : κ) (a : α) : ExtTreeMap κ (ExtTreeSet α) :=
  index.insert k ((members index k).insert a)

def removeMember (index : ExtTreeMap κ (ExtTreeSet α)) (k : κ) (a : α) :
    ExtTreeMap κ (ExtTreeSet α) :=
  match index[k]? with
  | none => index
  | some filed =>
    if (filed.erase a).isEmpty then index.erase k else index.insert k (filed.erase a)

/-- No key is kept for an empty set. -/
def Trim (index : ExtTreeMap κ (ExtTreeSet α)) : Prop :=
  ∀ (k : κ) filed, index[k]? = some filed → ∃ a, a ∈ filed

/-! ### One pair -/

variable [DecidableEq κ] {index : ExtTreeMap κ (ExtTreeSet α)} {k : κ} {a : α}

omit [LawfulEqOrd α] in
theorem members_addMember (k' : κ) :
    members (addMember index k a) k' = if k = k' then (members index k).insert a
      else members index k' := by
  rw [addMember, members, lookup_insert]
  split_ifs <;> rfl

theorem mem_addMember (k' : κ) (a' : α) :
    a' ∈ members (addMember index k a) k' ↔ k = k' ∧ a' = a ∨ a' ∈ members index k' := by
  rw [members_addMember]
  split_ifs with h
  · rw [mem_set_insert, h, and_iff_right rfl]
  · rw [or_iff_right (fun hk => h hk.1)]

omit [LawfulEqOrd α] in
theorem members_removeMember (k' : κ) :
    members (removeMember index k a) k' =
      if k = k' then (members index k).erase a else members index k' := by
  unfold removeMember
  split
  · rename_i hnone
    split_ifs with h
    · rw [← h, members, hnone, Option.getD_none, ExtTreeSet.erase_empty]
    · rfl
  · rename_i filed hfiled
    have hmembers : members index k = filed := by rw [members, hfiled, Option.getD_some]
    rw [hmembers]
    split_ifs with hempty h h
    · rw [← h, members, lookup_erase, if_pos rfl, ExtTreeSet.isEmpty_iff.mp hempty,
        Option.getD_none]
    · rw [members, lookup_erase, if_neg h, members]
    · rw [← h, members, lookup_insert, if_pos rfl, Option.getD_some]
    · rw [members, lookup_insert, if_neg h, members]

theorem mem_removeMember (k' : κ) (a' : α) :
    a' ∈ members (removeMember index k a) k' ↔ a' ∈ members index k' ∧ ¬(k = k' ∧ a' = a) := by
  rw [members_removeMember]
  split_ifs with h
  · rw [mem_set_erase, h, and_comm, and_iff_right rfl]
  · rw [and_iff_left (fun hk => h hk.1)]

theorem Trim.addMember (h : Trim index) (k : κ) (a : α) : Trim (addMember index k a) := by
  intro k' filed hfiled
  rw [Lib.addMember, lookup_insert] at hfiled
  split_ifs at hfiled
  · cases hfiled
    exact ⟨a, (mem_set_insert _ _ _).mpr (.inl rfl)⟩
  · exact h k' filed hfiled

omit [LawfulEqOrd α] in
theorem Trim.removeMember (h : Trim index) (k : κ) (a : α) : Trim (removeMember index k a) := by
  intro k' filed hfiled
  unfold Lib.removeMember at hfiled
  split at hfiled
  · exact h k' filed hfiled
  split_ifs at hfiled with hempty
  · rw [lookup_erase] at hfiled
    split_ifs at hfiled
    exact h k' filed hfiled
  · rw [lookup_insert] at hfiled
    split_ifs at hfiled
    · cases hfiled
      by_contra hnone
      exact hempty (ExtTreeSet.isEmpty_iff.mpr
        (ExtTreeSet.eq_empty_iff_forall_not_mem.mpr (not_exists.mp hnone)))
    · exact h k' filed hfiled

omit [LawfulEqOrd κ] [LawfulEqOrd α] [DecidableEq κ] in
theorem trim_empty : Trim (∅ : ExtTreeMap κ (ExtTreeSet α)) := by
  intro k filed hfiled
  rw [ExtTreeMap.getElem?_empty] at hfiled
  cases hfiled

/-! ### The keys of one member -/

theorem mem_foldl_addMember (keys : List κ) (k' : κ) (a' : α) :
    a' ∈ members (keys.foldl (fun index k => addMember index k a) index) k' ↔
      k' ∈ keys ∧ a' = a ∨ a' ∈ members index k' := by
  induction keys generalizing index with
  | nil => simp
  | cons k keys ih =>
    rw [List.foldl_cons, ih, mem_addMember, List.mem_cons, eq_comm (a := k)]
    tauto

theorem mem_foldl_removeMember (keys : List κ) (k' : κ) (a' : α) :
    a' ∈ members (keys.foldl (fun index k => removeMember index k a) index) k' ↔
      a' ∈ members index k' ∧ ¬(k' ∈ keys ∧ a' = a) := by
  induction keys generalizing index with
  | nil => simp
  | cons k keys ih =>
    rw [List.foldl_cons, ih, mem_removeMember, List.mem_cons, eq_comm (a := k)]
    tauto

variable {keys : List κ} {β : Type}

/-- A member taken out under every key it is filed under. -/
theorem mem_withdraw (hkeys : ∀ k, a ∈ members index k → k ∈ keys) (k' : κ) (a' : α) :
    a' ∈ members (keys.foldl (fun index k => removeMember index k a) index) k' ↔
      a' ∈ members index k' ∧ a' ≠ a := by
  rw [mem_foldl_removeMember]
  refine and_congr_right fun hmem => not_congr (and_iff_right_of_imp ?_)
  rintro rfl
  exact hkeys k' hmem

theorem Trim.foldl_addMember (h : Trim index) (keys : List κ) (a : α) :
    Trim (keys.foldl (fun index k => Lib.addMember index k a) index) := by
  induction keys generalizing index with
  | nil => exact h
  | cons k keys ih => exact ih (h.addMember k a)

omit [LawfulEqOrd α] in
theorem Trim.foldl_removeMember (h : Trim index) (keys : List κ) (a : α) :
    Trim (keys.foldl (fun index k => Lib.removeMember index k a) index) := by
  induction keys generalizing index with
  | nil => exact h
  | cons k keys ih => exact ih (h.removeMember k a)

/-! ### Keys -/

omit [LawfulEqOrd κ] [LawfulEqOrd α] [DecidableEq κ] in
/-- A key is kept exactly when something is filed under it. -/
theorem Trim.contains_iff (h : Trim index) : index.contains k = true ↔ ∃ a,
    a ∈ members index k := by
  rw [contains_eq_isSome, members]
  cases hk : index[k]? with
  | none => simp
  | some filed => simpa using h k filed hk

omit [LawfulEqOrd κ] [DecidableEq κ] in
theorem nodup_keys (t : ExtTreeMap κ β) : t.keys.Nodup :=
  ExtTreeMap.distinct_keys.imp fun hne heq => hne (by rw [heq]; exact ReflCmp.compare_self)

omit [LawfulEqOrd κ] [DecidableEq κ] in
theorem nodup_set_toList (s : ExtTreeSet κ) : s.toList.Nodup :=
  ExtTreeSet.distinct_toList.imp fun hne heq => hne (by rw [heq]; exact ReflCmp.compare_self)

omit [DecidableEq κ] in
/-- The number of keys, from a list of them. -/
theorem size_eq_length {t : ExtTreeMap κ β} (hnodup : keys.Nodup)
    (hmem : ∀ k, k ∈ keys ↔ t.contains k = true) : t.size = keys.length := by
  have hperm : t.keys.Perm keys :=
    (List.perm_ext_iff_of_nodup (nodup_keys t) hnodup).mpr fun k => by
    rw [hmem, ExtTreeMap.mem_keys, ExtTreeMap.mem_iff_contains]
  rw [← hperm.length_eq, ExtTreeMap.length_keys]

omit [DecidableEq κ] in
/-- A map has no more keys than one that keeps them all. -/
theorem size_le_size {γ : Type} {t : ExtTreeMap κ β} {u : ExtTreeMap κ γ}
    (h : ∀ k, t.contains k = true → u.contains k = true) : t.size ≤ u.size := by
  rw [← ExtTreeMap.length_keys, ← ExtTreeMap.length_keys]
  refine ((nodup_keys t).subperm fun k hk => ?_).length_le
  rw [ExtTreeMap.mem_keys, ExtTreeMap.mem_iff_contains] at hk ⊢
  exact h k hk

omit [TransOrd κ] [LawfulEqOrd κ] [DecidableEq κ] [Ord κ] in
/-- A set that has `a` has one member exactly when it has no other. -/
theorem size_eq_one_iff {s : ExtTreeSet α} {a : α} (ha : a ∈ s) :
    s.size = 1 ↔ ∀ b, b ∈ s → b = a := by
  have hsize : (s.erase a).size = s.size - 1 := by
    rw [ExtTreeSet.size_erase, if_pos (ExtTreeSet.mem_iff_contains.mp ha)]
  have hpos : s.size ≠ 0 := by
    intro hzero
    rw [ExtTreeSet.eq_empty_iff_size_eq_zero.mpr hzero] at ha
    exact ExtTreeSet.not_mem_empty ha
  have hone : s.size = 1 ↔ s.erase a = ∅ := by
    rw [ExtTreeSet.eq_empty_iff_size_eq_zero, hsize]
    omega
  rw [hone, ExtTreeSet.eq_empty_iff_forall_not_mem]
  refine forall_congr' fun b => ?_
  rw [mem_set_erase]
  tauto

end Lib
