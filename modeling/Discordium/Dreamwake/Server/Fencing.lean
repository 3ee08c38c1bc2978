import Discordium.Dreamwake.Server.Identities
import Discordium.Lib.Machine

/-!
# Dreamwake — Server — Fencing

What the allocation of identities keeps over any calls: `ids` and `keys` are each other's inverse,
no index has two holders, and an identity that is given is either the one its key has kept or newer
than everything its index has been.  The invariant is about the history: the holder of an index has
the newest generation ever given under it, and a holder whose identity has been retired still has it
among the retired ones.

The last point is where `identity` goes wrong.  When the generation of a returning key is used up,
the call takes the identity out of the retired ones and then fails; the next call finds the key with
an identity that is not retired and gives it again.  The branch that hands an actor's index to
another key computes the generation first.
-/

namespace Dreamwake.DreamReplication
open Net Lib
open Std (ExtTreeMap ExtTreeSet)

variable {s s' : DreamReplication} {key : Key} {id old : EntityId}

/-- An identity that has been given at some time. -/
def Given (s : DreamReplication) (id : EntityId) : Prop := ∃ key, .gave key id ∈ s.history

/-- What a key may be given when `before` is the history. -/
structure Fenced (before : List IdentityEvent) (key : Key) (id : EntityId) : Prop where
  /-- The key keeps an identity that is not retired, or everything given under the index is
  older. -/
  newer : (.gave key id ∈ before ∧ .retired id ∉ before) ∨
    ∀ key' id', .gave key' id' ∈ before → id'.index = id.index → id'.generation < id.generation
  /-- A key keeps its identity until that is retired. -/
  stable : ∀ id', .gave key id' ∈ before → .retired id' ∉ before → id' = id
  /-- Only retired identities of actors go to other keys. -/
  handed : ∀ key' id', .gave key' id' ∈ before → id'.index = id.index → key' ≠ key →
    key'.isActor = true ∧ .retired id' ∈ before

/-- `ids` and `keys` are mutually inverse. -/
def Inverse (s : DreamReplication) : Prop :=
  ∀ (key : Key) (id : EntityId), s.ids[key]? = some id ↔ s.keys[id]? = some key

/-- No two keys share an index. -/
def Distinct (s : DreamReplication) : Prop :=
  ∀ (key key' : Key) (id id' : EntityId), s.ids[key]? = some id → s.ids[key']? = some id' →
    id.index = id'.index → key = key'

/-- Whatever was given was fenced by the history before it. -/
def History (s : DreamReplication) : Prop :=
  ∀ after key id before, s.history = after ++ .gave key id :: before → Fenced before key id

/-- **The allocation is consistent.** -/
structure Consistent (s : DreamReplication) : Prop where
  inverse : Inverse s
  distinct : Distinct s
  fenced : History s
  /-- At most `maxIdentities` indices are ever allocated. -/
  bounded : ∀ key id, .gave key id ∈ s.history → 1 ≤ id.index ∧ id.index ≤ s.maxIdentities

/-- The invariant of the allocation. -/
structure Sound (s : DreamReplication) : Prop where
  inverse : Inverse s
  distinct : Distinct s
  index : ∀ (key : Key) (id : EntityId), s.ids[key]? = some id → 1 ≤ id.index ∧
    id.index ≤ s.ids.size
  size : s.ids.size ≤ s.maxIdentities
  fenced : History s
  recorded : ∀ (key : Key) (id : EntityId), s.ids[key]? = some id → .gave key id ∈ s.history
  /-- What was given and is no longer held has been retired. -/
  kept : ∀ key id, .gave key id ∈ s.history → s.ids[key]? = some id ∨ .retired id ∈ s.history
  /-- The holder of an index has its newest generation. -/
  holder : ∀ key' id', .gave key' id' ∈ s.history → ∃ (key : Key) (id : EntityId),
    s.ids[key]? = some id ∧ id.index = id'.index ∧ id'.generation ≤ id.generation ∧
    (key' ≠ key → key'.isActor = true ∧ .retired id' ∈ s.history)
  /-- A held identity stays among the retired ones. -/
  pending : ∀ (key : Key) (id : EntityId), s.ids[key]? = some id → .retired id ∈ s.history →
    id ∈ s.retired
  retired : ∀ id ∈ s.retired, .retired id ∈ s.history
  retiredGiven : ∀ id, .retired id ∈ s.history → Given s id
  present : ∀ id ∈ s.present, Given s id

theorem Sound.consistent (h : Sound s) : Consistent s where
  inverse := h.inverse
  distinct := h.distinct
  fenced := h.fenced
  bounded key id hg := by
    obtain ⟨key', id', hheld, hindex, -, -⟩ := h.holder key id hg
    have := h.index key' id' hheld
    have := h.size
    omega

theorem Given.mono (h : Given s id) (hh : ∀ event ∈ s.history, event ∈ s'.history) : Given s' id :=
  h.imp fun _ hg => hh _ hg

/-! ### What `identity` does -/

/-- An index goes on under a newer generation: the holder `previous` of the retired `old` gives way
to `key`, which may be the same. -/
structure Moved (s : DreamReplication) (key previous : Key) (old id : EntityId)
    (s' : DreamReplication) : Prop where
  held : s.ids[previous]? = some old
  retired : old ∈ s.retired
  other : previous ≠ key → previous.isActor = true ∧ s.ids[key]? = none
  index : id.index = old.index
  generation : id.generation = old.generation + 1
  ids : ∀ a : Key, s'.ids[a]? = if a = key then some id else if a = previous then none
    else s.ids[a]?
  keys : ∀ x : EntityId, s'.keys[x]? = if x = id then some key else if x = old then none
    else s.keys[x]?
  size : s'.ids.size = s.ids.size
  stillRetired : ∀ x, x ∈ s'.retired ↔ x ≠ old ∧ x ∈ s.retired
  present : s'.present = s.present
  maxIdentities : s'.maxIdentities = s.maxIdentities
  history : s'.history = .gave key id :: s.history

/-- What `identity` can do. -/
inductive Answered (s : DreamReplication) (key : Key) :
    EStateM.Result AdapterError DreamReplication EntityId → Prop where
  | kept {id : EntityId} (held : s.ids[key]? = some id) (live : id ∉ s.retired) :
    Answered s key (.ok id { s with history := .gave key id :: s.history })
  | moved {previous : Key} {old id : EntityId} {s' : DreamReplication}
    (move : Moved s key previous old id s') : Answered s key (.ok id s')
  | fresh (unknown : s.ids[key]? = none) (room : s.ids.size < s.maxIdentities) :
    Answered s key (.ok ⟨s.ids.size + 1, s.epoch⟩
      { s with
        ids := s.ids.insert key ⟨s.ids.size + 1, s.epoch⟩
        keys := s.keys.insert ⟨s.ids.size + 1, s.epoch⟩ key
        history := .gave key ⟨s.ids.size + 1, s.epoch⟩ :: s.history })
  | refused (error : AdapterError) : Answered s key (.error error s)
  /-- The identity is no longer retired, and still held. -/
  | exhausted {old : EntityId} (error : AdapterError) (held : s.ids[key]? = some old)
    (retired : old ∈ s.retired) (last : wordMax 32 ≤ old.generation) :
    Answered s key (.error error { s with retired := s.retired.erase old })

theorem successor_eq_some : successor old = some id ↔
    id.index = old.index ∧ id.generation = old.generation + 1 ∧ old.generation < wordMax 32 := by
  obtain ⟨index, generation⟩ := id
  simp only [successor, Option.map_eq_some_iff, checkedAdd_eq_some, EntityId.mk.injEq]
  constructor
  · rintro ⟨g, ⟨rfl, hle⟩, rfl, rfl⟩
    exact ⟨rfl, rfl, hle⟩
  · rintro ⟨rfl, rfl, hlt⟩
    exact ⟨_, ⟨rfl, hlt⟩, rfl, rfl⟩

theorem successor_eq_none (h : successor old = none) : wordMax 32 ≤ old.generation := by
  simp only [successor, Option.map_eq_none_iff, checkedAdd] at h
  split at h
  · cases h
  · omega

theorem spare_eq_some (h : s.spare = some old) :
    old ∈ s.retired ∧ ∃ previous, s.keys[old]? = some previous ∧ previous.isActor = true := by
  have hmem := List.mem_of_find?_eq_some h
  have hactor := List.find?_some h
  rw [Option.any_eq_true] at hactor
  exact ⟨ExtTreeSet.mem_toList.mp hmem, hactor⟩

/-- The holder of a retired identity goes on with the next generation. -/
theorem moved_returning (held : s.ids[key]? = some old) (retired : old ∈ s.retired)
    (next : successor old = some id) :
    Moved s key key old id
      { s with
        retired := s.retired.erase old
        ids := s.ids.insert key id
        keys := (s.keys.erase old).insert id key
        history := .gave key id :: s.history } where
  held := held
  retired := retired
  other h := absurd rfl h
  index := (successor_eq_some.mp next).1
  generation := (successor_eq_some.mp next).2.1
  ids a := by
    rw [lookup_insert]
    by_cases h : key = a
    · simp [h]
    · simp [h, Ne.symm h]
  keys x := by simp only [lookup_insert, lookup_erase, eq_comm]
  size := by rw [ExtTreeMap.size_insert, if_pos (contains_of_lookup held)]
  stillRetired x := mem_set_erase _ _ _
  present := rfl
  maxIdentities := rfl
  history := rfl

/-- The retired identity of an actor goes to another key. -/
theorem moved_reassigned {previous : Key} (unknown : s.ids[key]? = none)
    (held : s.ids[previous]? = some old) (actor : previous.isActor = true)
    (retired : old ∈ s.retired) (next : successor old = some id) :
    Moved s key previous old id
      { s with
        ids := (s.ids.erase previous).insert key id
        keys := (s.keys.erase old).insert id key
        retired := s.retired.erase old
        history := .gave key id :: s.history } where
  held := held
  retired := retired
  other _ := ⟨actor, unknown⟩
  index := (successor_eq_some.mp next).1
  generation := (successor_eq_some.mp next).2.1
  ids a := by simp only [lookup_insert, lookup_erase, eq_comm]
  keys x := by simp only [lookup_insert, lookup_erase, eq_comm]
  size := by
    have hkey : ¬ (s.ids.erase previous).contains key = true := by
      rw [contains_eq_isSome, lookup_erase, unknown, ite_self]
      exact Bool.false_ne_true
    rw [ExtTreeMap.size_insert, if_neg hkey, size_erase_add_one held]
  stillRetired x := mem_set_erase _ _ _
  present := rfl
  maxIdentities := rfl
  history := rfl

theorem identity_answered (inverse : Inverse s) (key : Key) : Answered s key (identity key s) := by
  unfold identity
  cases hheld : s.ids[key]? with
  | some old =>
    simp only
    split_ifs with hretired
    · have hretired : old ∈ s.retired := ExtTreeSet.contains_iff_mem.mp hretired
      cases hnext : successor old with
      | none => exact .exhausted _ hheld hretired (successor_eq_none hnext)
      | some id => exact .moved (moved_returning hheld hretired hnext)
    · exact .kept hheld fun h => hretired (ExtTreeSet.contains_iff_mem.mpr h)
  | none =>
    simp only
    cases hspare : s.spare with
    | none =>
      simp only
      split_ifs with hroom
      · exact .refused _
      · exact .fresh hheld (not_le.mp hroom)
    | some old =>
      obtain ⟨hretired, previous, hprevious, hactor⟩ := spare_eq_some hspare
      simp only [hprevious]
      cases hnext : successor old with
      | none => exact .refused _
      | some id =>
        exact .moved (moved_reassigned hheld ((inverse previous old).mpr hprevious) hactor
          hretired hnext)

/-! ### The invariant, one answer at a time -/

theorem History.cons_gave (h : History s) (hf : Fenced s.history key id)
    (hh : s'.history = .gave key id :: s.history) : History s' := by
  intro after key' id' before heq
  rw [hh] at heq
  cases after with
  | nil =>
    cases heq
    exact hf
  | cons event after => exact h after key' id' before (List.cons.inj heq).2

theorem History.cons_retired (h : History s) (hh : s'.history = .retired old :: s.history) :
    History s' := by
  intro after key' id' before heq
  rw [hh] at heq
  cases after with
  | nil => cases heq
  | cons event after => exact h after key' id' before (List.cons.inj heq).2

namespace Sound

/-- What was given under a held index is not newer, and went to the holder or was an actor's. -/
theorem of_index (h : Sound s) (held : s.ids[key]? = some id) {key' : Key} {id' : EntityId}
    (hg : .gave key' id' ∈ s.history) (hindex : id'.index = id.index) :
    id'.generation ≤ id.generation ∧ (key' ≠ key → key'.isActor = true ∧
      .retired id' ∈ s.history) := by
  obtain ⟨key₁, id₁, hheld, hindex₁, hle, hother⟩ := h.holder key' id' hg
  obtain rfl := h.distinct _ _ _ _ hheld held (hindex₁.trans hindex)
  obtain rfl := Option.some.inj (hheld.symm.trans held)
  exact ⟨hle, hother⟩

theorem kept_answer (h : Sound s) (held : s.ids[key]? = some id) (live : id ∉ s.retired) :
    Sound { s with history := .gave key id :: s.history } where
  inverse := h.inverse
  distinct := h.distinct
  index := h.index
  size := h.size
  fenced := by
    refine h.fenced.cons_gave ⟨.inl ⟨h.recorded key id held,
      fun hr => live (h.pending key id held hr)⟩, fun id' hg hr => ?_,
      fun key' id' hg hindex => (h.of_index held hg hindex).2⟩ rfl
    exact Option.some.inj (((h.kept key id' hg).resolve_right hr).symm.trans held)
  recorded key' id' hk := List.mem_cons_of_mem _ (h.recorded key' id' hk)
  kept key' id' hg := by
    rcases List.mem_cons.mp hg with heq | hg
    · cases heq
      exact .inl held
    · exact (h.kept key' id' hg).imp_right (List.mem_cons_of_mem _)
  holder key' id' hg := by
    rcases List.mem_cons.mp hg with heq | hg
    · cases heq
      exact ⟨key, id, held, rfl, le_rfl, fun hne => absurd rfl hne⟩
    · obtain ⟨key₁, id₁, hheld, hindex, hle, hother⟩ := h.holder key' id' hg
      exact ⟨key₁, id₁, hheld, hindex, hle,
        fun hne => (hother hne).imp_right (List.mem_cons_of_mem _)⟩
  pending key' id' hk hr := h.pending key' id' hk (by simpa using hr)
  retired x hx := List.mem_cons_of_mem _ (h.retired x hx)
  retiredGiven x hx := (h.retiredGiven x (by simpa using hx)).mono fun _ => List.mem_cons_of_mem _
  present x hx := (h.present x hx).mono fun _ => List.mem_cons_of_mem _

end Sound

namespace Moved
variable {previous : Key} {x id' : EntityId}

section
variable (m : Moved s key previous old id s')
include m

theorem lookup {a : Key} (hx : s'.ids[a]? = some x) :
    (a = key ∧ x = id) ∨ (a ≠ key ∧ a ≠ previous ∧ s.ids[a]? = some x) := by
  rw [m.ids] at hx
  split_ifs at hx with hkey hprevious
  · exact .inl ⟨hkey, (Option.some.inj hx).symm⟩
  · exact .inr ⟨hkey, hprevious, hx⟩

theorem lookup_key : s'.ids[key]? = some id := by
  rw [m.ids, if_pos rfl]

/-- The key held the identity that moves, or nothing. -/
theorem held_key (hx : s.ids[key]? = some x) : x = old := by
  by_cases h : previous = key
  · exact Option.some.inj (hx.symm.trans (h ▸ m.held))
  · rw [(m.other h).2] at hx
    cases hx

/-- Everything given under the index is older than what the key is given. -/
theorem newer (h : Sound s) {key' : Key}
    (hg : .gave key' id' ∈ s.history) (hindex : id'.index = id.index) :
    id'.generation < id.generation := by
  have := (h.of_index m.held hg (hindex.trans m.index)).1
  have := m.generation
  omega

theorem not_retired (h : Sound s) : .retired id ∉ s.history := by
  intro hr
  obtain ⟨key', hg⟩ := h.retiredGiven id hr
  exact lt_irrefl _ (m.newer h hg rfl)

theorem retired_of_held (h : Sound s) {key' : Key}
    (hheld : s.ids[key']? = some id') (hkey' : key' = key ∨ key' = previous) :
    .retired id' ∈ s.history := by
  have hold : id' = old := by
    rcases hkey' with rfl | rfl
    · exact m.held_key hheld
    · exact Option.some.inj (hheld.symm.trans m.held)
  exact hold ▸ h.retired old m.retired

theorem fenced (h : Sound s) : Fenced s.history key id where
  newer := .inr fun _ _ hg hindex => m.newer h hg hindex
  stable id' hg hr := by
    have hheld := (h.kept key id' hg).resolve_right hr
    exact absurd (m.retired_of_held h hheld (.inl rfl)) hr
  handed key' id' hg hindex hne := by
    by_cases hprevious : key' = previous
    · subst hprevious
      refine ⟨(m.other hne).1, ?_⟩
      rcases h.kept key' id' hg with hheld | hr
      · exact m.retired_of_held h hheld (.inr rfl)
      · exact hr
    · exact (h.of_index m.held hg (hindex.trans m.index)).2 hprevious

theorem inverse (h : Sound s) : Inverse s' := by
  intro a x
  constructor
  · intro hx
    rw [m.keys]
    rcases m.lookup hx with ⟨rfl, rfl⟩ | ⟨hkey, hprevious, hx⟩
    · rw [if_pos rfl]
    · have hindex : x.index ≠ old.index :=
        fun hindex => hprevious (h.distinct _ _ _ _ hx m.held hindex)
      have hid : x ≠ id := fun heq => hindex (heq ▸ m.index)
      have hold : x ≠ old := fun heq => hindex (heq ▸ rfl)
      rw [if_neg hid, if_neg hold]
      exact (h.inverse a x).mp hx
  · intro hx
    rw [m.keys] at hx
    split_ifs at hx with hid hold
    · cases hx
      rw [hid, m.lookup_key]
    · have hx := (h.inverse a x).mpr hx
      have hkey : a ≠ key := fun heq => hold (m.held_key (heq ▸ hx))
      have hprevious : a ≠ previous :=
        fun heq => hold (Option.some.inj (hx.symm.trans (heq ▸ m.held)))
      rw [m.ids, if_neg hkey, if_neg hprevious, hx]

theorem distinct (h : Sound s) : Distinct s' := by
  intro a b x y hx hy hindex
  rcases m.lookup hx with ⟨rfl, rfl⟩ | ⟨hax, hap, hx⟩ <;>
    rcases m.lookup hy with ⟨rfl, rfl⟩ | ⟨hbx, hbp, hy⟩
  · rfl
  · exact absurd (h.distinct _ _ _ _ hy m.held (hindex.symm.trans m.index)) hbp
  · exact absurd (h.distinct _ _ _ _ hx m.held (hindex.trans m.index)) hap
  · exact h.distinct _ _ _ _ hx hy hindex

theorem sound (h : Sound s) : Sound s' where
  inverse := m.inverse h
  distinct := m.distinct h
  index a x hx := by
    rw [m.size]
    rcases m.lookup hx with ⟨-, rfl⟩ | ⟨-, -, hx⟩
    · exact m.index ▸ h.index _ _ m.held
    · exact h.index _ _ hx
  size := by
    rw [m.size, m.maxIdentities]
    exact h.size
  fenced := h.fenced.cons_gave (m.fenced h) m.history
  recorded a x hx := by
    rw [m.history]
    rcases m.lookup hx with ⟨rfl, rfl⟩ | ⟨-, -, hx⟩
    · exact List.mem_cons_self
    · exact List.mem_cons_of_mem _ (h.recorded _ _ hx)
  kept a x hg := by
    rw [m.history] at hg ⊢
    rcases List.mem_cons.mp hg with heq | hg
    · cases heq
      exact .inl m.lookup_key
    · rcases h.kept a x hg with hheld | hr
      · by_cases hgone : a = key ∨ a = previous
        · exact .inr (List.mem_cons_of_mem _ (m.retired_of_held h hheld hgone))
        · rw [not_or] at hgone
          rw [m.ids, if_neg hgone.1, if_neg hgone.2]
          exact .inl hheld
      · exact .inr (List.mem_cons_of_mem _ hr)
  holder key' id' hg := by
    rw [m.history] at hg ⊢
    rcases List.mem_cons.mp hg with heq | hg
    · cases heq
      exact ⟨key, id, m.lookup_key, rfl, le_rfl, fun hne => absurd rfl hne⟩
    · by_cases hindex : id'.index = id.index
      · exact ⟨key, id, m.lookup_key, hindex.symm, (m.newer h hg hindex).le, fun hne =>
          ((m.fenced h).handed key' id' hg hindex hne).imp_right (List.mem_cons_of_mem _)⟩
      · obtain ⟨key₁, id₁, hheld, hindex₁, hle, hother⟩ := h.holder key' id' hg
        have hne : id₁ ≠ old := fun heq => hindex (hindex₁.symm.trans (heq ▸ m.index.symm))
        have hkey : key₁ ≠ key := fun heq => hne (m.held_key (heq ▸ hheld))
        have hprevious : key₁ ≠ previous := fun heq =>
          hne (Option.some.inj (hheld.symm.trans (heq ▸ m.held)))
        refine ⟨key₁, id₁, ?_, hindex₁, hle, fun hne =>
          (hother hne).imp_right (List.mem_cons_of_mem _)⟩
        rw [m.ids, if_neg hkey, if_neg hprevious, hheld]
  pending a x hx hr := by
    have hr : .retired x ∈ s.history := by simpa [m.history] using hr
    rw [m.stillRetired]
    rcases m.lookup hx with ⟨rfl, rfl⟩ | ⟨-, hprevious, hx⟩
    · exact absurd hr (m.not_retired h)
    · refine ⟨fun heq => hprevious (h.distinct _ _ _ _ hx m.held (heq ▸ rfl)), h.pending a x hx hr⟩
  retired x hx := by
    rw [m.history]
    exact List.mem_cons_of_mem _ (h.retired x ((m.stillRetired x).mp hx).2)
  retiredGiven x hx := by
    refine (h.retiredGiven x (by simpa [m.history] using hx)).mono fun event he => ?_
    rw [m.history]
    exact List.mem_cons_of_mem _ he
  present x hx := by
    refine (h.present x (m.present ▸ hx)).mono fun event he => ?_
    rw [m.history]
    exact List.mem_cons_of_mem _ he

end

end Moved

namespace Sound

/-- No index beyond the size of the map has been given. -/
theorem index_le (h : Sound s) (hg : Given s id) : id.index ≤ s.ids.size := by
  obtain ⟨key, hg⟩ := hg
  obtain ⟨key', id', hheld, hindex, -, -⟩ := h.holder key id hg
  exact hindex ▸ (h.index key' id' hheld).2

theorem fresh_answer (h : Sound s) (unknown : s.ids[key]? = none)
    (room : s.ids.size < s.maxIdentities) (hindex : id.index = s.ids.size + 1) :
    Sound { s with
      ids := s.ids.insert key id
      keys := s.keys.insert id key
      history := .gave key id :: s.history } := by
  have hnew : ¬ Given s id := fun hg => by
    have := h.index_le hg
    omega
  have hnone : ∀ (key' : Key) (id' : EntityId), .gave key' id' ∈ s.history →
      id'.index ≠ id.index := by
    intro key' id' hg heq
    have := h.index_le ⟨key', hg⟩
    omega
  have hother : ∀ (a : Key) (x : EntityId), s.ids[a]? = some x → a ≠ key ∧ x ≠ id := by
    intro a x hx
    refine ⟨fun heq => ?_, fun heq => ?_⟩
    · rw [heq, unknown] at hx
      cases hx
    · exact hnew ⟨a, heq ▸ h.recorded a x hx⟩
  have hlookup : ∀ (a : Key) (x : EntityId), (s.ids.insert key id)[a]? = some x ↔
      (a = key ∧ x = id) ∨ s.ids[a]? = some x := by
    intro a x
    rw [lookup_insert]
    split_ifs with hkey
    · subst hkey
      simp [unknown, eq_comm]
    · simp [Ne.symm hkey]
  exact {
    inverse := fun a x => by
      rw [hlookup, lookup_insert]
      split_ifs with hid
      · subst hid
        have : s.ids[a]? ≠ some id := fun hx => (hother a id hx).2 rfl
        simp [this, eq_comm]
      · simp [Ne.symm hid, h.inverse a x]
    distinct := fun a b x y hx hy heq => by
      rcases (hlookup a x).mp hx with ⟨ha, hxid⟩ | hx' <;>
        rcases (hlookup b y).mp hy with ⟨hb, hyid⟩ | hy'
      · rw [ha, hb]
      · exact absurd (hxid ▸ heq.symm) (hnone b y (h.recorded b y hy'))
      · exact absurd (hyid ▸ heq) (hnone a x (h.recorded a x hx'))
      · exact h.distinct a b x y hx' hy' heq
    index := fun a x hx => by
      have hsize : (s.ids.insert key id).size = s.ids.size + 1 := by
        rw [ExtTreeMap.size_insert, contains_eq_isSome, unknown]
        rfl
      simp only [hsize]
      rcases (hlookup a x).mp hx with ⟨-, rfl⟩ | hx
      · omega
      · have := h.index a x hx
        omega
    size := ExtTreeMap.size_insert_le.trans room
    fenced := by
      refine h.fenced.cons_gave ⟨.inr fun key' id' hg heq => absurd heq (hnone key' id' hg),
        fun id' hg hr => ?_, fun key' id' hg heq => absurd heq (hnone key' id' hg)⟩ rfl
      exact absurd rfl (hother key id' ((h.kept key id' hg).resolve_right hr)).1
    recorded := fun a x hx => by
      rcases (hlookup a x).mp hx with ⟨rfl, rfl⟩ | hx
      · exact List.mem_cons_self
      · exact List.mem_cons_of_mem _ (h.recorded a x hx)
    kept := fun a x hg => by
      rcases List.mem_cons.mp hg with heq | hg
      · cases heq
        exact .inl ((hlookup key id).mpr (.inl ⟨rfl, rfl⟩))
      · exact (h.kept a x hg).imp (fun hx => (hlookup a x).mpr (.inr hx)) (List.mem_cons_of_mem _)
    holder := fun key' id' hg => by
      rcases List.mem_cons.mp hg with heq | hg
      · cases heq
        exact ⟨key, id, (hlookup key id).mpr (.inl ⟨rfl, rfl⟩), rfl, le_rfl,
          fun hne => absurd rfl hne⟩
      · obtain ⟨key₁, id₁, hheld, hindex₁, hle, hother⟩ := h.holder key' id' hg
        exact ⟨key₁, id₁, (hlookup key₁ id₁).mpr (.inr hheld), hindex₁, hle,
          fun hne => (hother hne).imp_right (List.mem_cons_of_mem _)⟩
    pending := fun a x hx hr => by
      have hr' : .retired x ∈ s.history := by simpa using hr
      rcases (hlookup a x).mp hx with ⟨-, hid⟩ | hx'
      · exact absurd (hid ▸ h.retiredGiven x hr') hnew
      · exact h.pending a x hx' hr'
    retired := fun x hx => List.mem_cons_of_mem _ (h.retired x hx)
    retiredGiven := fun x hx =>
      (h.retiredGiven x (by simpa using hx)).mono fun _ => List.mem_cons_of_mem _
    present := fun x hx => (h.present x hx).mono fun _ => List.mem_cons_of_mem _ }

end Sound

/-! ### Calls -/

/-- No retired identity has the last generation. -/
def Renewable (s : DreamReplication) : Prop := ∀ id ∈ s.retired, id.generation < wordMax 32

instance (s : DreamReplication) : Decidable (Renewable s) :=
  decidable_of_iff (∀ id ∈ s.retired.toList, id.generation < wordMax 32)
    (by simp only [Renewable, ExtTreeSet.mem_toList])

/-- What holds between the identities of a call: the invariant, and that some identities have been
given. -/
structure Ready (T : EntityId → Prop) (s : DreamReplication) : Prop where
  sound : Sound s
  renewable : Renewable s
  given : ∀ id, T id → Given s id

variable {T : EntityId → Prop}

theorem Ready.mono {T' : EntityId → Prop} (h : Ready T s) (hT : ∀ id, T' id → T id) : Ready T' s :=
  ⟨h.sound, h.renewable, fun id hid => h.given id (hT id hid)⟩

/-- An answer of `identity` that is sound keeps what has been given, and adds to it. -/
theorem Ready.answer (h : Ready T s) (hs : Sound s')
    (hr : ∀ x ∈ s'.retired, x ∈ s.retired) (hh : s'.history = .gave key id :: s.history) :
    Ready (fun x => x = id ∨ T x) s' where
  sound := hs
  renewable x hx := h.renewable x (hr x hx)
  given x hx := by
    rcases hx with rfl | hx
    · exact ⟨key, hh ▸ List.mem_cons_self⟩
    · exact (h.given x hx).mono fun event he => hh ▸ List.mem_cons_of_mem _ he

theorem identity_spec (T : EntityId → Prop) (key : Key) :
    Triple (Ready T) (identity key) (fun id => Ready fun x => x = id ∨ T x) Sound := by
  intro s hs
  have hanswered := identity_answered hs.sound.inverse key
  cases hresult : identity key s with
  | ok id s' =>
    rw [hresult] at hanswered
    cases hanswered with
    | kept held live => exact hs.answer (hs.sound.kept_answer held live) (fun _ hx => hx) rfl
    | moved move =>
      exact hs.answer (move.sound hs.sound) (fun x hx => ((move.stillRetired x).mp hx).2)
        move.history
    | fresh unknown room =>
      exact hs.answer (hs.sound.fresh_answer unknown room rfl) (fun _ hx => hx) rfl
  | error error s' =>
    rw [hresult] at hanswered
    cases hanswered with
    | refused _ => exact hs.sound
    | exhausted _ held retired last => exact absurd (hs.renewable _ retired) (not_lt.mpr last)

/-- A call to `identity` whose answer is not kept. -/
theorem identity_keeps (T : EntityId → Prop) (key : Key) :
    Triple (Ready T) (identity key) (fun _ => Ready T) Sound :=
  (identity_spec T key).weaken (fun _ h => h) fun _ _ h => h.mono fun _ => .inr

theorem refuse_keeps (T : EntityId → Prop) (error : AdapterError) (cond : Prop) [Decidable cond] :
    Triple (Ready T) (refuse error cond) (fun _ => Ready T) Sound :=
  .refuse fun _ h => h.sound

theorem raise_keeps {P : DreamReplication → Prop} (hP : ∀ s, P s → Sound s)
    (fault : Option AdapterError) : Triple P (raise fault) (fun _ => P) Sound := by
  cases fault with
  | none => exact .pure fun _ h => h
  | some error => exact .throw hP

theorem reserveOwner_spec (owner : ℕ) :
    Triple (Ready fun _ => False) (reserveOwner owner) (fun _ => Sound) Sound :=
  .bind (refuse_keeps _ _ _) fun _ => .bind (identity_keeps _ _) fun _ => .bind (identity_keeps _ _)
    fun _ => .bind (identity_keeps _ _) fun _ => .pure fun _ h => h.sound

theorem Sound.present_insert (h : Sound s) (hg : Given s id) :
    Sound { s with present := s.present.insert id } :=
  { h with
    present := fun x hx => by
      rcases (mem_set_insert _ _ _).mp hx with rfl | hx
      · exact hg
      · exact h.present x hx }

theorem reserveProjectileIdentity_spec (projectile : ℕ) :
    Triple (Ready fun _ => False) (reserveProjectileIdentity projectile)
      (fun _ => Sound) Sound := by
  refine .bind (identity_spec _ _) fun entity => .bind (.modified fun s h => ?_) fun _ =>
    .pure fun _ h => h
  exact h.sound.present_insert (h.given entity (.inl rfl))

/-! ### Captures -/

namespace Prepare
variable (p : Prepare)

theorem checkStamp_spec :
    Triple (Ready fun _ => False) p.checkStamp (fun _ => Ready fun _ => False) Sound := by
  refine .bind (.get) fun s => .weaken ?_ (fun _ h => h.2) fun _ _ h => h
  exact .bind (refuse_keeps _ _ _) fun _ => .bind (refuse_keeps _ _ _) fun _ => refuse_keeps _ _ _

theorem checkSources_spec (T : EntityId → Prop) (count : ℕ) (ids : List ℕ) :
    Triple (Ready T) (checkSources count ids) (fun _ => Ready T) Sound := by
  induction ids generalizing count with
  | nil => exact .pure fun _ h => h
  | cons id ids ih =>
    exact .bind (refuse_keeps _ _ _) fun _ => .bind (refuse_keeps _ _ _) fun _ => ih _

theorem platformRound_spec (T : EntityId → Prop) (platforms : ExtTreeMap ColliderKey EntityId)
    (key : ReplicationKey) :
    Triple (Ready T) (p.platformRound platforms key) (fun _ => Ready T) Sound := by
  unfold platformRound
  split
  · split
    · exact .pure fun _ h => h
    · exact .bind (identity_keeps _ _) fun _ => .bind (refuse_keeps _ _ _) fun _ =>
        .pure fun _ h => h
  · exact .pure fun _ h => h

theorem checkBases_spec (T : EntityId → Prop) (platforms : ExtTreeMap ColliderKey EntityId)
    (owner : ℕ) : Triple (Ready T) (p.checkBases platforms owner) (fun _ => Ready T) Sound :=
  .bind (refuse_keeps _ _ _) fun _ => refuse_keeps _ _ _

/-- The owners that are kept were present, so they have been given. -/
theorem keptOwners_given (h : Sound s) : ∀ id ∈ p.keptOwners s, Given s id := by
  intro id hid
  rw [keptOwners, ExtTreeSet.mem_ofList, List.contains_iff_mem] at hid
  exact h.present id (ExtTreeSet.contains_iff_mem.mp (List.mem_filter.mp hid).2)

theorem reserveRound_spec (present : ExtTreeSet EntityId) (reservation : ℕ × ℕ) :
    Triple (Ready (· ∈ present)) (reserveRound present reservation)
      (fun present => Ready (· ∈ present)) Sound := by
  refine .bind (refuse_keeps _ _ _) fun _ => .bind (identity_spec _ _) fun id => .pure fun s h => ?_
  exact h.mono fun x hx => (mem_set_insert _ _ _).mp hx

theorem registerRound_spec (present : ExtTreeSet EntityId) (key : Key) :
    Triple (Ready (· ∈ present)) (p.registerRound present key)
      (fun present => Ready (· ∈ present)) Sound := by
  refine .bind (identity_spec _ _) fun id => .bind (raise_keeps (fun _ h => h.sound) _) fun _ =>
    .pure fun s h => ?_
  exact h.mono fun x hx => (mem_set_insert _ _ _).mp hx

theorem giveAll_spec :
    Triple (Ready fun _ => False) p.giveAll (fun present => Ready (· ∈ present)) Sound := by
  refine .bind (identity_keeps _ _) fun _ => .bind .get fun s => ?_
  refine .weaken ?_ (fun _ h => h.2) fun _ _ h => h
  refine .bind (refuse_keeps _ _ _) fun _ => .bind (checkSources_spec _ _ _) fun _ => ?_
  refine .bind (.foldlM (fun platforms key _ => p.platformRound_spec _ platforms key) ∅)
    fun platforms => ?_
  refine .bind (.forM fun owner _ => p.checkBases_spec _ platforms owner) fun _ => ?_
  refine .bind .get fun s => .weaken ?_ (P := Ready (· ∈ p.keptOwners s)) ?_ fun _ _ h => h
  · exact .bind (refuse_keeps _ _ _) fun _ =>
      .bind (.foldlM (fun present reservation _ => reserveRound_spec present reservation) _)
        fun present =>
        .foldlM (fun present key _ => p.registerRound_spec present key) present
  · rintro s' ⟨rfl, h⟩
    exact ⟨h.sound, h.renewable, p.keptOwners_given h.sound⟩

end Prepare

/-- An identity that has been given is retired. -/
theorem Sound.retire (h : Sound s) (hg : Given s id) :
    Sound { s with retired := s.retired.insert id, history := .retired id :: s.history } where
  inverse := h.inverse
  distinct := h.distinct
  index := h.index
  size := h.size
  fenced := h.fenced.cons_retired rfl
  recorded key' id' hk := List.mem_cons_of_mem _ (h.recorded key' id' hk)
  kept key' id' hg := (h.kept key' id' (by simpa using hg)).imp_right (List.mem_cons_of_mem _)
  holder key' id' hg := by
    obtain ⟨key₁, id₁, hheld, hindex, hle, hother⟩ := h.holder key' id' (by simpa using hg)
    exact ⟨key₁, id₁, hheld, hindex, hle,
      fun hne => (hother hne).imp_right (List.mem_cons_of_mem _)⟩
  pending key' id' hk hr := by
    refine (mem_set_insert _ _ _).mpr ?_
    rcases List.mem_cons.mp hr with heq | hr
    · cases heq
      exact .inl rfl
    · exact .inr (h.pending key' id' hk hr)
  retired x hx := by
    rcases (mem_set_insert _ _ _).mp hx with rfl | hx
    · exact List.mem_cons_self
    · exact List.mem_cons_of_mem _ (h.retired x hx)
  retiredGiven x hx := by
    refine Given.mono (s := s) ?_ fun _ => List.mem_cons_of_mem _
    rcases List.mem_cons.mp hx with heq | hx
    · cases heq
      exact hg
    · exact h.retiredGiven x hx
  present x hx := (h.present x hx).mono fun _ => List.mem_cons_of_mem _

namespace Prepare
variable (p : Prepare)

/-- The loop over the identities that are gone knows that all of them, and all that stay, have been
given. -/
theorem retireRound_spec (T : EntityId → Prop) (hid : T id) :
    Triple (fun s => Sound s ∧ ∀ x, T x → Given s x) (p.retireRound id)
      (fun _ s => Sound s ∧ ∀ x, T x → Given s x) Sound := by
  refine .bind (.modified fun s h => ?_) fun _ => raise_keeps (fun _ h => h.1) _
  exact ⟨h.1.retire (h.2 id hid), fun x hx => (h.2 x hx).mono fun _ => List.mem_cons_of_mem _⟩

theorem retireAll_spec (present : ExtTreeSet EntityId) :
    Triple (Ready (· ∈ present)) (p.retireAll present) (fun _ => Sound) Sound := by
  refine .bind .get fun s => ?_
  let T : EntityId → Prop := fun x => x ∈ present ∨ x ∈ s.present
  have hloop : Triple (fun s => Sound s ∧ ∀ x, T x → Given s x)
      ((s.present.toList.filter fun id => !present.contains id).forM p.retireRound)
      (fun _ s => Sound s ∧ ∀ x, T x → Given s x) Sound := by
    refine .forM fun id hid => p.retireRound_spec T (.inr ?_)
    exact ExtTreeSet.mem_toList.mp (List.mem_filter.mp hid).1
  refine .weaken (.bind hloop fun _ => .modified fun s' h => ?_) ?_ fun _ _ h => h
  · exact { h.1 with present := fun x hx => h.2 x (.inl hx) }
  · rintro s' ⟨rfl, h⟩
    exact ⟨h.sound, fun x hx => hx.elim (h.given x) (h.sound.present x)⟩

end Prepare

theorem prepare_spec (p : Prepare) :
    Triple (Ready fun _ => False) (prepare p) (fun _ => Sound) Sound :=
  .bind p.checkStamp_spec fun _ => .bind p.giveAll_spec fun present =>
    .bind (p.retireAll_spec present) fun _ => raise_keeps (fun _ h => h) _

/-! ### Runs -/

/-- The calls that give identities. -/
inductive Operation where
  | reserveOwner (owner : ℕ)
  | reserveProjectileIdentity (id : ℕ)
  | prepare (p : Prepare)

/-- One call; a failed one keeps what it has done. -/
def operate (s : DreamReplication) : Operation → DreamReplication
  | .reserveOwner owner => finalState (reserveOwner owner) s
  | .reserveProjectileIdentity id => finalState (reserveProjectileIdentity id) s
  | .prepare p => finalState (prepare p) s

theorem operate_sound (operation : Operation) (h : Sound s) (hr : Renewable s) :
    Sound (operate s operation) := by
  have hs : Ready (fun _ => False) s := ⟨h, hr, fun _ hx => hx.elim⟩
  cases operation with
  | reserveOwner owner => exact (reserveOwner_spec owner).finalState hs
  | reserveProjectileIdentity id => exact (reserveProjectileIdentity_spec id).finalState hs
  | prepare p => exact (prepare_spec p).finalState hs

theorem withCompression_sound {epoch maxEntities : ℕ}
    (h : withCompression epoch maxEntities = .ok s) :
    Sound s := by
  unfold withCompression at h
  split_ifs at h
  cases h
  constructor <;> simp [Inverse, Distinct, History, Given]

/-- A capture of an empty scene. -/
def emptyCapture (epoch : ℕ) : Prepare where
  capture :=
    { matchEpoch := epoch, sceneRevision := 1, collisionScene := 1, collisionCurrent := true
      keys := [], position := fun _ => false, platform := fun _ => none, requiredBases :=
        fun _ => []
      reservedProjectiles := [] }
  activeOwners := []
  players := []
  upsert := fun _ => none
  remove := fun _ => none
  gather := none

/-- A projectile is reserved in the last match epoch, retired by a capture that does not have it,
and asked for again: the first call fails, and the second gives the retired identity once more. -/
theorem retired_identity_given_again :
    ∃ s, withCompression (wordMax 32) 16 = .ok s ∧
      ¬ Consistent (run operate s [.reserveProjectileIdentity 5,
        .prepare (emptyCapture (wordMax 32)),
        .reserveProjectileIdentity 5, .reserveProjectileIdentity 5]) := by
  refine ⟨_, rfl, fun h => ?_⟩
  let given : IdentityEvent := .gave (.actor (.projectile 5)) ⟨1, wordMax 32⟩
  have hfenced := h.fenced [] (.actor (.projectile 5)) ⟨1, wordMax 32⟩
    [.retired ⟨1, wordMax 32⟩, .gave .collision ⟨2, wordMax 32⟩, .gave .global ⟨3, wordMax 32⟩,
      .gave .collision ⟨2, wordMax 32⟩, given] (by decide +kernel)
  rcases hfenced.newer with ⟨-, hlive⟩ | hnewer
  · exact hlive List.mem_cons_self
  · exact lt_irrefl _ (hnewer (.actor (.projectile 5)) ⟨1, wordMax 32⟩ (by simp [given]) rfl)

/-- **Identities are fenced by their generations.**  In every run whose calls find no retired
identity of the last generation, the allocation is consistent in every state reached, whatever fails
on the way. -/
theorem identities_consistent {epoch maxEntities : ℕ}
    (hnew : withCompression epoch maxEntities = .ok s) {operations : List Operation}
    (hrun : Meets operate (fun s _ => Renewable s) s operations) :
    Consistent (run operate s operations) :=
  (hrun.invariant (I := Sound) (fun _ operation h hr => operate_sound operation h hr)
    (withCompression_sound hnew)).consistent

/-- An owner and a projectile are reserved; the projectile is retired and comes back with the next
generation. -/
theorem identities_consistent_returning :
    ∃ s, withCompression 1 16 = .ok s ∧
      Consistent (run operate s [.reserveOwner 7, .reserveProjectileIdentity 5,
        .prepare (emptyCapture 1),
        .reserveProjectileIdentity 5]) ∧
      (run operate s [.reserveOwner 7, .reserveProjectileIdentity 5, .prepare (emptyCapture 1),
        .reserveProjectileIdentity 5]).ids[Key.actor (.projectile 5)]? = some ⟨4, 2⟩ :=
  ⟨_, rfl, identities_consistent (show withCompression 1 16 = .ok _ from rfl) (by decide +kernel),
    by decide +kernel⟩

end Dreamwake.DreamReplication
