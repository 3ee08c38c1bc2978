import Mathlib

/-!
# Lib — Recent

The latest items of a stream that arrive in any order: at most a number of them, none further than a
depth behind the newest.  An arrival moves the newest key, forgets what is now too deep, is entered
in order of keys, and pushes the oldest item out when there are too many.  Nothing that is forgotten
could have been among the latest later (`Recent.enter`, `Recent.deep`, `Recent.full`), so what is
kept depends on the keys received only (`Recent.mem_iff`).
-/

namespace Lib

variable {α : Type} (key : α → ℕ)

/-- An item entered before the first one whose key is not smaller. -/
def enterByKey (a : α) (items : List α) : List α :=
  items.takeWhile (key · < key a) ++ a :: items.dropWhile (key · < key a)

/-- The newest key once an item has arrived at a list in order of keys. -/
def newestKey (items : List α) (a : α) : ℕ :=
  items.getLast?.elim (key a) fun last => max (key last) (key a)

/-- What is kept of the keys received. -/
structure Recent (depth count : ℕ) (received : Set ℕ) (kept : List α) : Prop where
  sorted : kept.Pairwise (key · < key ·)
  known : ∀ a ∈ kept, key a ∈ received
  newest : ∀ u ∈ received, ∃ a ∈ kept, u ≤ key a
  size : kept.length ≤ count
  near : ∀ a ∈ kept, ∀ u ∈ received, u ≤ key a + depth
  /-- A key that is not kept is too deep, or older than as many as can be kept. -/
  rest : ∀ u ∈ received, (∀ a ∈ kept, key a ≠ u) →
    (∃ v ∈ received, u + depth < v) ∨ kept.length = count ∧ ∀ a ∈ kept, u < key a

section
variable {key} {depth count : ℕ} {received : Set ℕ} {kept items : List α} {a b : α}

/-! ### Entering in order -/

theorem mem_enterByKey : b ∈ enterByKey key a items ↔ b = a ∨ b ∈ items := by
  unfold enterByKey
  nth_rewrite 3 [← List.takeWhile_append_dropWhile (p := (key · < key a)) (l := items)]
  simp only [List.mem_append, List.mem_cons]
  tauto

theorem length_enterByKey : (enterByKey key a items).length = items.length + 1 := by
  unfold enterByKey
  nth_rewrite 3 [← List.takeWhile_append_dropWhile (p := (key · < key a)) (l := items)]
  simp only [List.length_append, List.length_cons]
  omega

theorem sorted_enterByKey (hsorted : items.Pairwise (key · < key ·))
    (hnew : ∀ b ∈ items, key b ≠ key a) : (enterByKey key a items).Pairwise (key · < key ·) := by
  induction items with
  | nil => exact List.pairwise_singleton _ _
  | cons c items ih =>
    obtain ⟨hc, hrest⟩ := List.pairwise_cons.mp hsorted
    by_cases hlt : key c < key a
    · have hcons : enterByKey key a (c :: items) = c :: enterByKey key a items := by
        simp only [enterByKey, List.takeWhile_cons, List.dropWhile_cons, hlt, decide_true, if_true,
          List.cons_append]
      rw [hcons]
      refine List.pairwise_cons.mpr ⟨fun b hb => ?_,
        ih hrest fun b hb => hnew b (List.mem_cons_of_mem c hb)⟩
      rcases mem_enterByKey.mp hb with rfl | hb
      · exact hlt
      · exact hc b hb
    · have hcons : enterByKey key a (c :: items) = a :: c :: items := by
        simp [enterByKey, hlt]
      have hlt' : key a < key c := lt_of_le_of_ne (not_lt.mp hlt) (hnew c List.mem_cons_self).symm
      rw [hcons]
      refine List.pairwise_cons.mpr ⟨fun b hb => ?_, hsorted⟩
      rcases List.mem_cons.mp hb with rfl | hb
      · exact hlt'
      · exact hlt'.trans (hc b hb)

/-! ### The newest key -/

theorem key_le_newestKey (items : List α) (a : α) : key a ≤ newestKey key items a := by
  unfold newestKey
  cases items.getLast? with
  | none => exact le_rfl
  | some last => exact le_max_right _ _

theorem le_newestKey (hsorted : items.Pairwise (key · < key ·)) (hb : b ∈ items) :
    key b ≤ newestKey key items a := by
  rcases List.eq_nil_or_concat' items with rfl | ⟨before, last, rfl⟩
  · cases hb
  · rw [newestKey, List.getLast?_concat, Option.elim_some]
    refine le_max_of_le_left ?_
    rcases List.mem_append.mp hb with hb | hb
    · exact ((List.pairwise_append.mp hsorted).2.2 b hb last (List.mem_singleton_self last)).le
    · rw [List.mem_singleton.mp hb]

/-- The newest key is that of the item or of one in the list. -/
theorem newestKey_eq (items : List α) (a : α) :
    newestKey key items a = key a ∨ ∃ b ∈ items, newestKey key items a = key b := by
  unfold newestKey
  cases hlast : items.getLast? with
  | none => exact .inl rfl
  | some last =>
    rcases le_total (key last) (key a) with hle | hle
    · exact .inl (max_eq_right hle)
    · exact .inr ⟨last, List.mem_of_getLast? hlast, max_eq_left hle⟩

namespace Recent

section
variable (h : Recent key depth count received kept)
include h

theorem le_newestKey (a : α) : ∀ u ∈ insert (key a) received, u ≤ newestKey key kept a := by
  rintro u (rfl | hu)
  · exact key_le_newestKey kept a
  · obtain ⟨b, hb, hle⟩ := h.newest u hu
    exact hle.trans (Lib.le_newestKey h.sorted hb)

/-- The newest key has been received. -/
theorem newestKey_mem (a : α) : newestKey key kept a ∈ insert (key a) received := by
  rcases @newestKey_eq α key kept a with heq | ⟨b, hb, heq⟩
  · exact .inl heq
  · exact .inr (heq ▸ h.known b hb)

/-- Receiving a key of the list again. -/
theorem again (hb : b ∈ kept) (heq : key b = key a) :
    Recent key depth count (insert (key a) received) kept := by
  rwa [Set.insert_eq_of_mem (heq ▸ h.known b hb)]

end

/-! ### Arrivals -/

theorem first (hcount : 1 ≤ count) (a : α) : Recent key depth count {key a} [a] where
  sorted := List.pairwise_singleton _ _
  known := by simp
  newest := by simp
  size := hcount
  near := by simp
  rest := by
    rintro u rfl hne
    exact absurd rfl (hne a (List.mem_singleton_self a))

section
variable (h : Recent key depth count received kept)
include h

/-- A key that is not kept changes nothing, if it is too deep or older than as many as can be
kept. -/
theorem skip (hnewest : ∃ b ∈ kept, key a ≤ key b) (hnear : ∀ b ∈ kept, key a ≤ key b + depth)
    (hrest : (∃ v ∈ received, key a + depth < v) ∨
      kept.length = count ∧ ∀ b ∈ kept, key a < key b) :
    Recent key depth count (insert (key a) received) kept where
  sorted := h.sorted
  known b hb := .inr (h.known b hb)
  newest := by
    rintro u (rfl | hu)
    · exact hnewest
    · exact h.newest u hu
  size := h.size
  near := by
    rintro b hb u (rfl | hu)
    · exact hnear b hb
    · exact h.near b hb u hu
  rest := by
    have hlift : ∀ u, (∃ v ∈ received, u + depth < v) → ∃ v ∈ insert (key a) received,
        u + depth < v :=
      fun u ⟨v, hv, hlt⟩ => ⟨v, .inr hv, hlt⟩
    rintro u (rfl | hu) hne
    · exact hrest.imp_left (hlift _)
    · exact (h.rest u hu hne).imp_left (hlift u)

/-- An arrival further than the depth behind the newest key. -/
theorem deep (hdeep : key a < newestKey key kept a - depth) :
    Recent key depth count (insert (key a) received) kept := by
  have hlt : key a + depth < newestKey key kept a := by omega
  rcases @newestKey_eq α key kept a with heq | ⟨b, hb, heq⟩
  · omega
  · refine h.skip ⟨b, hb, by omega⟩ (fun c hc => ?_) (.inl ⟨key b, h.known b hb, heq ▸ hlt⟩)
    have := h.near c hc (key b) (h.known b hb)
    omega

/-- An arrival at a full list, before its first key. -/
theorem full (hlength : kept.length = count)
    {first : α} (hfirst : kept.head? = some first) (hlt : key a < key first) :
    Recent key depth count (insert (key a) received) kept := by
  have hmem : first ∈ kept := List.mem_of_head? hfirst
  have hall : ∀ b ∈ kept, key a < key b := by
    intro b hb
    obtain ⟨rest, rfl⟩ := List.head?_eq_some_iff.mp hfirst
    rcases List.mem_cons.mp hb with rfl | hb
    · exact hlt
    · exact hlt.trans ((List.pairwise_cons.mp h.sorted).1 b hb)
  exact h.skip ⟨first, hmem, hlt.le⟩ (fun b hb => (hall b hb).le.trans (Nat.le_add_right _ _))
    (.inr ⟨hlength, hall⟩)

end

/-- The items left by an arrival, before the oldest is pushed out. -/
def entered (key : α → ℕ) (depth : ℕ) (kept : List α) (a : α) : List α :=
  enterByKey key a (kept.filter (newestKey key kept a - depth ≤ key ·))

section entering
variable (h : Recent key depth count received kept) (hnew : ∀ b ∈ kept, key b ≠ key a)
  (hnear : newestKey key kept a - depth ≤ key a)

theorem mem_entered : b ∈ entered key depth kept a ↔ b = a ∨ b ∈ kept ∧
    newestKey key kept a - depth ≤ key b := by
  rw [entered, mem_enterByKey, List.mem_filter, decide_eq_true_eq]

include h hnew in
theorem sorted_entered : (entered key depth kept a).Pairwise (key · < key ·) :=
  sorted_enterByKey (h.sorted.sublist List.filter_sublist) fun b hb =>
    hnew b (List.mem_of_mem_filter hb)

include h in
theorem known_entered : ∀ b ∈ entered key depth kept a, key b ∈ insert (key a) received := by
  intro b hb
  rcases mem_entered.mp hb with rfl | ⟨hb, -⟩
  · exact .inl rfl
  · exact .inr (h.known b hb)

/-- The item with the newest key is among those left. -/
theorem newest_entered : ∃ b ∈ entered key depth kept a, newestKey key kept a = key b := by
  rcases @newestKey_eq α key kept a with heq | ⟨b, hb, heq⟩
  · exact ⟨a, mem_entered.mpr (.inl rfl), heq⟩
  · exact ⟨b, mem_entered.mpr (.inr ⟨hb, heq ▸ Nat.sub_le _ _⟩), heq⟩

include h hnear in
theorem near_entered : ∀ b ∈ entered key depth kept a, ∀ u ∈ insert (key a) received,
    u ≤ key b + depth := by
  intro b hb u hu
  have hle := h.le_newestKey a u hu
  rcases mem_entered.mp hb with rfl | ⟨-, hb⟩ <;> omega

include h in
/-- A key received before and not left is too deep now, or it was already older than as many as can
be kept, and none of those is gone. -/
theorem rest_entered {u : ℕ} (hu : u ∈ insert (key a) received)
    (hne : ∀ b ∈ entered key depth kept a, key b ≠ u) :
    (∃ v ∈ insert (key a) received, u + depth < v) ∨
      kept.length = count ∧ (∀ b ∈ kept, u < key b) ∧
        kept.filter (newestKey key kept a - depth ≤ key ·) = kept := by
  have hnewest := h.newestKey_mem a
  have hu' : u ∈ received := hu.resolve_left fun heq => hne a (mem_entered.mpr (.inl rfl)) heq.symm
  by_cases hkept : ∃ b ∈ kept, key b = u
  · obtain ⟨b, hb, rfl⟩ := hkept
    have hdeep : ¬newestKey key kept a - depth ≤ key b :=
      fun hle => hne b (mem_entered.mpr (.inr ⟨hb, hle⟩)) rfl
    exact .inl ⟨_, hnewest, by omega⟩
  · rcases h.rest u hu' (by simpa using hkept) with ⟨v, hv, hlt⟩ | ⟨hlength, hall⟩
    · exact .inl ⟨v, .inr hv, hlt⟩
    · by_cases hfilter : ∀ b ∈ kept, newestKey key kept a - depth ≤ key b
      · exact .inr ⟨hlength, hall, List.filter_eq_self.mpr fun b hb =>
          decide_eq_true (hfilter b hb)⟩
      · -- one of the kept items is too deep now, and so is every older key
        push Not at hfilter
        obtain ⟨b, hb, hlt⟩ := hfilter
        have := hall b hb
        exact .inl ⟨_, hnewest, by omega⟩

include h hnew hnear in
/-- **An arrival that is entered**, in a list with room for it or whose first item it pushes out. -/
theorem enter (hcount : 1 ≤ count)
    (hfull : kept.length = count → ∀ first, kept.head? = some first → key first ≤ key a) :
    Recent key depth count (insert (key a) received)
      (if (entered key depth kept a).length > count then (entered key depth kept a).tail
        else entered key depth kept a) := by
  have hlength : (entered key depth kept a).length =
      (kept.filter (newestKey key kept a - depth ≤ key ·)).length + 1 := length_enterByKey
  have hle := List.length_filter_le (newestKey key kept a - depth ≤ key ·) kept
  obtain ⟨newest, hnewest, hkey⟩ := @newest_entered α key depth kept a
  split
  case isFalse hroom =>
    refine ⟨sorted_entered h hnew, known_entered h, fun u hu => ⟨newest, hnewest, ?_⟩,
      not_lt.mp hroom, near_entered h hnear, fun u hu hne => ?_⟩
    · exact hkey ▸ h.le_newestKey a u hu
    · refine (rest_entered h hu hne).imp_right fun ⟨hcount', _, hfilter⟩ => ?_
      rw [hfilter] at hlength
      omega
  case isTrue hover =>
    have hsize := h.size
    -- the first item goes, and all others are newer
    obtain ⟨oldest, left, hentered⟩ : ∃ oldest left, entered key depth kept a = oldest :: left := by
      cases hentered : entered key depth kept a with
      | nil => rw [hentered] at hover; exact absurd hover (Nat.not_lt_zero _)
      | cons oldest left => exact ⟨oldest, left, rfl⟩
    have hsorted := sorted_entered h hnew
    have hleft : ∀ b ∈ left, b ∈ entered key depth kept a :=
      fun b hb => hentered ▸ List.mem_cons_of_mem oldest hb
    rw [hentered] at hsorted hlength hover
    obtain ⟨hafter, hsorted⟩ := List.pairwise_cons.mp hsorted
    rw [hentered, List.tail_cons]
    rw [List.length_cons] at hlength hover
    have hleftLength : left.length = count := by omega
    refine ⟨hsorted, fun b hb => known_entered h b (hleft b hb), fun u hu => ?_, hleftLength.le,
      fun b hb => near_entered h hnear b (hleft b hb), fun u hu hne => ?_⟩
    · refine ⟨newest, ?_, hkey ▸ h.le_newestKey a u hu⟩
      rcases List.mem_cons.mp (hentered ▸ hnewest) with rfl | hmem
      · obtain ⟨b, hb⟩ := List.exists_mem_of_length_pos (show 0 < left.length by omega)
        have hlt := hafter b hb
        have := h.le_newestKey a (key b) (known_entered h b (hleft b hb))
        omega
      · exact hmem
    · by_cases heq : u = key oldest
      · exact .inr ⟨hleftLength, heq ▸ hafter⟩
      · have hne' : ∀ b ∈ entered key depth kept a, key b ≠ u := by
          intro b hb
          rcases List.mem_cons.mp (hentered ▸ hb) with rfl | hb
          · exact Ne.symm heq
          · exact hne b hb
        refine (rest_entered h hu hne').imp_right fun ⟨hcount', hall, _⟩ =>
          ⟨hleftLength, fun b hb => ?_⟩
        rcases mem_entered.mp (hleft b hb) with rfl | ⟨hb, -⟩
        · -- the list was full, so the arrival is not before its first item
          obtain ⟨first, rest, hkept⟩ :=
            List.exists_cons_of_length_pos (show 0 < kept.length by omega)
          exact (hall first (hkept ▸ List.mem_cons_self)).trans_le
            (hfull hcount' first (hkept ▸ rfl))
        · exact hall b hb

end entering

/-! ### What is kept -/

/-- **What is kept** are the keys within the depth of the newest one with fewer newer ones than the
number that can be kept. -/
theorem mem_iff {received : Finset ℕ} (h : Recent key depth count received kept) {u : ℕ}
    (hu : u ∈ received) :
    (∃ a ∈ kept, key a = u) ↔ (∀ v ∈ received, v ≤ u + depth) ∧ (received.filter (u < ·)).card <
    count := by
  have hnodup : (kept.map key).Nodup := List.pairwise_map.mpr (h.sorted.imp fun hlt => hlt.ne)
  have hcard : (kept.map key).toFinset.card = kept.length := by
    rw [List.toFinset_card_of_nodup hnodup, List.length_map]
  constructor
  · rintro ⟨a, ha, rfl⟩
    refine ⟨fun v hv => h.near a ha v hv, ?_⟩
    -- every newer key is kept
    have hsub : received.filter (key a < ·) ⊆ (kept.map key).toFinset.erase (key a) := by
      intro v hv
      obtain ⟨hv, hlt⟩ := Finset.mem_filter.mp hv
      refine Finset.mem_erase.mpr ⟨hlt.ne', List.mem_toFinset.mpr ?_⟩
      by_contra hne
      rcases h.rest v hv (fun b hb heq => hne (List.mem_map.mpr ⟨b, hb, heq⟩))
        with ⟨w, hw, hlt'⟩ | ⟨-, hall⟩
      · have := h.near a ha w hw
        omega
      · exact lt_asymm hlt (hall a ha)
    have hmem : key a ∈ (kept.map key).toFinset := List.mem_toFinset.mpr (List.mem_map_of_mem ha)
    calc (received.filter (key a < ·)).card
        ≤ ((kept.map key).toFinset.erase (key a)).card := Finset.card_le_card hsub
      _ < (kept.map key).toFinset.card := Finset.card_erase_lt_of_mem hmem
      _ ≤ count := hcard ▸ h.size
  · rintro ⟨hdeep, hfew⟩
    by_contra hne
    rcases h.rest u hu (fun a ha heq => hne ⟨a, ha, heq⟩) with ⟨v, hv, hlt⟩ | ⟨hlength, hall⟩
    · exact absurd (hdeep v hv) (not_le.mpr hlt)
    · refine absurd hfew (not_lt.mpr ?_)
      rw [← hlength, ← hcard]
      refine Finset.card_le_card fun v hv => ?_
      obtain ⟨a, ha, rfl⟩ := List.mem_map.mp (List.mem_toFinset.mp hv)
      exact Finset.mem_filter.mpr ⟨h.known a ha, hall a ha⟩

end Recent
end
end Lib
