import Discordium.Lib.Machine
import Discordium.Net.Replication.Groups.Invariant
import Discordium.Net.Replication.Messages

/-!
# Net — Replication — Groups — Delivery

A station is an assembler and the client it publishes to, under any interleaving of chunks, expiries
and messages for the client alone.  A publication reaches the client whole or not at all; the fence
of a group only moves forward; a transfer keeps its deadline; and the chunks of one publication,
however they come, publish at the last missing one, with a result that does not depend on how they
came.
-/

namespace Net
open Lib
open Std (ExtTreeMap)

variable {P : Type}

structure Station (P : Type) where
  assembler : GroupAssembler P
  client : ClientScopes P

namespace GroupAssembler

/-- The assembler with nothing past its deadline, where the clock does not go back. -/
def expired (a : GroupAssembler P) (nowMs : ℕ) : GroupAssembler P :=
  match a.expire nowMs with
  | .ok (a, _) => a
  | .error _ => a

theorem expire_expired {a : GroupAssembler P} {nowMs : ℕ} (h : a.nowMs ≤ nowMs) :
    ∃ count, a.expire nowMs = .ok (a.expired nowMs, count) := by
  unfold expired expire
  rw [if_neg h.not_gt]
  exact ⟨_, rfl⟩

theorem expired_of_lt {a : GroupAssembler P} {nowMs : ℕ} (h : nowMs < a.nowMs) :
    a.expired nowMs = a := by
  unfold expired expire
  rw [if_pos h]

section
variable (a : GroupAssembler P) (nowMs : ℕ)

theorem expired_eq :
    ∃ nowMs' assemblies bytes, a.expired nowMs = { a with nowMs := nowMs', assemblies, bytes } := by
  rcases lt_or_ge nowMs a.nowMs with h | h
  · exact ⟨_, _, _, expired_of_lt h⟩
  · obtain ⟨count, hexpire⟩ := expire_expired h
    exact ⟨_, _, _, (expire_ok hexpire).2⟩

@[simp] theorem expired_fences : (a.expired nowMs).fences = a.fences := by
  obtain ⟨_, _, _, heq⟩ := a.expired_eq nowMs
  rw [heq]

@[simp] theorem expired_connection : (a.expired nowMs).connection = a.connection := by
  obtain ⟨_, _, _, heq⟩ := a.expired_eq nowMs
  rw [heq]

@[simp] theorem expired_limits : (a.expired nowMs).limits = a.limits := by
  obtain ⟨_, _, _, heq⟩ := a.expired_eq nowMs
  rw [heq]

end

theorem expired_assemblies {a : GroupAssembler P} {nowMs g : ℕ} {assembly : Assembly P}
    (h : (a.expired nowMs).assemblies[g]? = some assembly) : a.assemblies[g]? = some assembly := by
  rcases lt_or_ge nowMs a.nowMs with hlt | hle
  · rwa [expired_of_lt hlt] at h
  · obtain ⟨count, hexpire⟩ := expire_expired hle
    exact ((expire_lookup hexpire).mp h).1

theorem Sound.expired {a : GroupAssembler P} (hs : a.Sound) (nowMs : ℕ) :
    (a.expired nowMs).Sound := by
  rcases lt_or_ge nowMs a.nowMs with h | h
  · rwa [expired_of_lt h]
  · obtain ⟨count, hexpire⟩ := expire_expired h
    exact hs.expire hexpire

/-- A call at a time that is gone is refused; another one comes to the assembler with nothing past
its deadline. -/
theorem receive_cases [DecidableEq P] [Payload P] [StateLayout P] (a : GroupAssembler P)
    (chunk : GroupChunk P) (nowMs : ℕ) (client : ClientScopes P) (validate : P → Bool) :
    (nowMs < a.nowMs ∧ a.receive chunk nowMs client validate = (a, client, .error .stale)) ∨
    (a.nowMs ≤ nowMs ∧ a.receive chunk nowMs client validate =
      (a.expired nowMs).receiveChunk chunk nowMs client validate) := by
  rcases lt_or_ge nowMs a.nowMs with h | h
  · refine .inl ⟨h, ?_⟩
    unfold receive expire
    rw [if_pos h]
  · refine .inr ⟨h, ?_⟩
    obtain ⟨count, hexpire⟩ := expire_expired h
    unfold receive
    rw [hexpire]

end GroupAssembler

namespace Station

inductive Action (P : Type) where
  | receive (chunk : GroupChunk P) (nowMs : ℕ) (validate : P → Bool)
  | expire (nowMs : ℕ)
  /-- A full state, an exit or a destruction for the client alone. -/
  | deliver (m : Message P) (validate : P → Bool)
  | reset (connection : ℕ)

variable [DecidableEq P] [Payload P] [StateLayout P]

def step (s : Station P) : Action P → Station P
  | .receive chunk nowMs validate =>
    match s.assembler.receive chunk nowMs s.client validate with
    | (assembler, client, _) => ⟨assembler, client⟩
  | .expire nowMs => { s with assembler := s.assembler.expired nowMs }
  | .deliver m validate => { s with client := (s.client.apply m validate).1 }
  | .reset connection => { s with client := (s.client.reset connection).1 }

theorem sound_step {s : Station P} (hs : s.assembler.Sound) (action : Action P) :
    (s.step action).assembler.Sound := by
  cases action with
  | receive chunk nowMs validate => exact hs.receive
  | expire nowMs => exact hs.expired nowMs
  | deliver m validate => exact hs
  | reset connection => exact hs

end Station

namespace GroupAssembler

/-! ### Whole or not at all -/

/-- What a call does to the client: nothing, or every member of the manifest, once, in one
publication. -/
theorem received_client [DecidableEq P] [Payload P] {a : GroupAssembler P} {chunk : GroupChunk P}
    {nowMs : ℕ} {client : ClientScopes P} {validate : P → Bool}
    {result : GroupAssembler P × ClientScopes P × Except ReplicationError GroupProgress}
    (hs : a.Sound) (h : Received a chunk nowMs client validate result) :
    (result.2.1 = client ∧ ∀ receipts, result.2.2 = .ok (.published receipts) →
      ∀ r ∈ receipts, ∃ state, client.state r.scope.entity = some state ∧ state.receipt = r) ∨
    ∃ members receipts, result.2.2 = .ok (.published receipts) ∧
      (members.map fun state : FullState P => state.scope).Perm chunk.manifest ∧
      applyAll validate client members = .ok (result.2.1, receipts) := by
  cases h with
  | refused error => exact .inl ⟨rfl, by simp⟩
  | repeated fence receipts hf hp hr hretained =>
    refine .inl ⟨rfl, ?_⟩
    rintro _ ⟨⟩
    exact hretained
  | duplicate assembly ha hc => exact .inl ⟨rfl, by simp⟩
  | staged existing replaced startedMs groupBytes bytes h =>
    obtain ⟨-, hc⟩ | ⟨-, error, -, hc⟩ | ⟨-, hlength, client', receipts, happly, hc⟩ :=
      complete_cases (a.stage chunk existing startedMs groupBytes bytes).1
        (a.stage chunk existing startedMs groupBytes bytes).2 chunk client validate
    · rw [hc]
      exact .inl ⟨rfl, by simp⟩
    · rw [hc]
      exact .inl ⟨rfl, by simp⟩
    · rw [hc]
      refine .inr ⟨_, receipts, rfl, ?_, happly⟩
      obtain ⟨hmanifest, -⟩ := h.staged
      exact hmanifest ▸ (h.assembly_sound hs).perm hlength

/-! ### Fences and deadlines -/

/-- A publication of a group at or after another one. -/
def Advances (old new : GroupPublication) : Prop :=
  old.revision < new.revision ∨ (old.revision = new.revision ∧ old.snapshot ≤ new.snapshot)

theorem Advances.refl (publication : GroupPublication) : Advances publication publication :=
  .inr ⟨rfl, le_rfl⟩

theorem Advances.trans {p q r : GroupPublication} (h : Advances p q) (h' : Advances q r) :
    Advances p r := by
  unfold Advances at *
  omega

theorem advances_of_not_precedes {key old : GroupPublication} (h : ¬precedes key old) :
    Advances old key := by
  unfold precedes at h
  unfold Advances
  omega

/-- The group is in the middle of a transfer that started at `startedMs`, or in the ruins of one. -/
structure Transfer (a : GroupAssembler P) (g startedMs : ℕ) : Prop where
  unpublished : ∃ fence : GroupFence, a.fences[g]? = some fence ∧ fence.receipts = none
  started : ∀ assembly : Assembly P, a.assemblies[g]? = some assembly →
    assembly.startedMs = startedMs

/-- What one call does to fences and transfers; it leaves the limits. -/
structure Forward (a a' : GroupAssembler P) : Prop where
  limits : a'.limits = a.limits
  fence : ∀ (g : ℕ) (fence : GroupFence), a.fences[g]? = some fence →
    ∃ fence' : GroupFence, a'.fences[g]? = some fence' ∧
      Advances fence.publication fence'.publication
  transfer : ∀ g startedMs, a.Transfer g startedMs →
    (∃ fence : GroupFence, a'.fences[g]? = some fence ∧ fence.receipts ≠ none) ∨
      a'.Transfer g startedMs

theorem Forward.refl (a : GroupAssembler P) : Forward a a where
  limits := rfl
  fence _ fence hf := ⟨fence, hf, .refl _⟩
  transfer _ _ ht := .inr ht

/-- Dropped assemblies change neither. -/
theorem Forward.drop {a b c : GroupAssembler P} (h : Forward a b) (hl : c.limits = b.limits)
    (hf : c.fences = b.fences)
    (ha : ∀ (g : ℕ) (assembly : Assembly P), c.assemblies[g]? = some assembly →
      b.assemblies[g]? = some assembly) : Forward a c where
  limits := hl.trans h.limits
  fence g fence hg := hf ▸ h.fence g fence hg
  transfer g startedMs ht := by
    rcases h.transfer g startedMs ht with hpub | hb
    · exact .inl (hf ▸ hpub)
    · exact .inr ⟨hf ▸ hb.unpublished, fun assembly hg => hb.started assembly (ha g assembly hg)⟩

/-- The receipts of a publication end its transfer. -/
theorem Forward.publish {a b : GroupAssembler P} {g : ℕ} {fence : GroupFence}
    {assembly : Assembly P} (h : Forward a b) (hg : b.fences[g]? = some fence)
    (receipts : List StateReceipt) :
    Forward a { b.drop g assembly with
      fences := b.fences.insert g { fence with receipts := some receipts } } where
  limits := h.limits
  fence g' old hold := by
    obtain ⟨new, hnew, hadvances⟩ := h.fence g' old hold
    rw [lookup_insert]
    split_ifs with heq
    · subst heq
      rw [hg, Option.some.injEq] at hnew
      exact ⟨_, rfl, hnew ▸ hadvances⟩
    · exact ⟨new, hnew, hadvances⟩
  transfer g' startedMs ht := by
    by_cases heq : g = g'
    · exact .inl ⟨_, (lookup_insert ..).trans (if_pos heq), by simp⟩
    · have hsame : (b.fences.insert g { fence with receipts := some receipts })[g']? =
          b.fences[g']? :=
        (lookup_insert ..).trans (if_neg heq)
      rcases h.transfer g' startedMs ht with hpub | hb
      · exact .inl (hsame ▸ hpub)
      · refine .inr ⟨hsame ▸ hb.unpublished, fun found hfound => hb.started found ?_⟩
        change (b.assemblies.erase g)[g']? = some found at hfound
        rwa [lookup_erase, if_neg heq] at hfound

section staged
variable {a : GroupAssembler P} {chunk : GroupChunk P} {nowMs startedMs groupBytes bytes : ℕ}
  {validate : P → Bool} {existing replaced : Option (Assembly P)}

theorem stage_fences (g : ℕ) : (a.stage chunk existing startedMs groupBytes bytes).1.fences[g]? =
    if chunk.publication.group = g then some ⟨chunk.publication, chunk.endTick,
      chunk.manifest, none⟩
    else a.fences[g]? :=
  lookup_insert ..

theorem stage_assemblies (g : ℕ) :
    (a.stage chunk existing startedMs groupBytes bytes).1.assemblies[g]? =
      if chunk.publication.group = g then some (a.stage chunk existing startedMs groupBytes bytes).2
      else a.assemblies[g]? :=
  lookup_insert ..

theorem Staging.forward
    (h : Staging a chunk nowMs validate existing replaced startedMs groupBytes bytes) :
    Forward a (a.stage chunk existing startedMs groupBytes bytes).1 where
  limits := rfl
  fence g fence hg := by
    rw [stage_fences]
    split_ifs with heq
    · subst heq
      rcases h.opens.fence with ⟨hnone, -⟩ | ⟨old, hold, -, hprecedes, -⟩
      · rw [hnone] at hg
        cases hg
      · rw [hold, Option.some.injEq] at hg
        exact ⟨_, rfl, hg ▸ advances_of_not_precedes hprecedes⟩
    · exact ⟨fence, hg, .refl _⟩
  transfer g start ht := by
    refine .inr ?_
    by_cases heq : chunk.publication.group = g
    · subst heq
      refine ⟨⟨_, (stage_fences _).trans (if_pos rfl), rfl⟩, fun assembly hfound => ?_⟩
      rw [stage_assemblies, if_pos rfl, Option.some.injEq] at hfound
      subst hfound
      -- an unpublished group lets a chunk in only while its assembly is there
      obtain ⟨fence, hfence, hreceipts⟩ := ht.unpublished
      rcases h.opens.fence with ⟨hnone, -⟩ | ⟨old, hold, -, -, hthere⟩
      · simp [hnone] at hfence
      · rw [hold, Option.some.injEq] at hfence
        obtain ⟨there, hfound⟩ := Option.isSome_iff_exists.mp (hthere (hfence ▸ hreceipts))
        exact (h.started.1 there hfound).trans (ht.started there hfound)
    · refine ⟨?_, fun assembly hfound => ?_⟩
      · rw [stage_fences, if_neg heq]
        exact ht.unpublished
      · rw [stage_assemblies, if_neg heq] at hfound
        exact ht.started assembly hfound

end staged

/-- A call that begins with dropped assemblies. -/
theorem Forward.of_drop {a b c : GroupAssembler P} (h : Forward b c) (hl : b.limits = a.limits)
    (hf : b.fences = a.fences)
    (ha : ∀ (g : ℕ) (assembly : Assembly P), b.assemblies[g]? = some assembly →
      a.assemblies[g]? = some assembly) : Forward a c where
  limits := h.limits.trans hl
  fence g fence hg := h.fence g fence (hf ▸ hg)
  transfer g startedMs ht := h.transfer g startedMs
    ⟨hf ▸ ht.unpublished, fun assembly hg => ht.started assembly (ha g assembly hg)⟩

variable [DecidableEq P] [Payload P] [StateLayout P]

theorem receiveChunk_forward (a : GroupAssembler P) (chunk : GroupChunk P) (nowMs : ℕ)
    (client : ClientScopes P) (validate : P → Bool) :
    Forward a (a.receiveChunk chunk nowMs client validate).1 := by
  refine receiveChunk_keeps (.refl a) fun h staged hstaged => ?_
  subst hstaged
  refine ⟨h.forward, h.forward.drop rfl rfl fun g assembly hg => ?_,
    h.forward.publish ((stage_fences _).trans (if_pos rfl))⟩
  change ((a.stage ..).1.assemblies.erase _)[g]? = _ at hg
  rw [lookup_erase] at hg
  split_ifs at hg
  exact hg

end GroupAssembler

namespace Station
variable [DecidableEq P] [Payload P] [StateLayout P]
open GroupAssembler (Forward Advances Transfer)

theorem forward_step (s : Station P) (action : Action P) :
    Forward s.assembler (s.step action).assembler := by
  cases action with
  | receive chunk nowMs validate =>
    change Forward _ (s.assembler.receive chunk nowMs s.client validate).1
    rcases s.assembler.receive_cases chunk nowMs s.client validate with ⟨-, hr⟩ | ⟨-, hr⟩
    · rw [hr]
      exact .refl _
    · rw [hr]
      exact (GroupAssembler.receiveChunk_forward ..).of_drop (s.assembler.expired_limits nowMs)
        (s.assembler.expired_fences nowMs)
        fun g assembly => GroupAssembler.expired_assemblies
  | expire nowMs =>
    exact (Forward.refl _).drop (s.assembler.expired_limits nowMs)
      (s.assembler.expired_fences nowMs)
      fun g assembly => GroupAssembler.expired_assemblies
  | deliver | reset => exact .refl _

theorem run_sound {s : Station P} (hs : s.assembler.Sound) (actions : List (Action P)) :
    (run step s actions).assembler.Sound := by
  induction actions generalizing s with
  | nil => exact hs
  | cons action actions ih => exact ih (sound_step hs action)

section
variable (s : Station P) (actions : List (Action P))

theorem run_limits : (run step s actions).assembler.limits = s.assembler.limits := by
  induction actions generalizing s with
  | nil => rfl
  | cons action actions ih => exact (ih (s.step action)).trans (s.forward_step action).limits

/-- **A fence never goes back.** -/
theorem fences_advance {g : ℕ} {fence : GroupFence} (h : s.assembler.fences[g]? = some fence) :
    ∃ fence' : GroupFence, (run step s actions).assembler.fences[g]? = some fence' ∧
      Advances fence.publication fence'.publication := by
  induction actions generalizing s fence with
  | nil => exact ⟨fence, h, .refl _⟩
  | cons action actions ih =>
    obtain ⟨between, hbetween, hfirst⟩ := (s.forward_step action).fence g fence h
    obtain ⟨last, hlast, hrest⟩ := ih (s.step action) hbetween
    exact ⟨last, hlast, hfirst.trans hrest⟩

/-- **A transfer keeps its start until it is published**, whatever replaces it. -/
theorem transfer_kept {g startedMs : ℕ}
    (h : s.assembler.Transfer g startedMs)
    (hunpublished : ∀ n, ∀ fence : GroupFence,
      (run step s (actions.take n)).assembler.fences[g]? = some fence → fence.receipts = none) :
    (run step s actions).assembler.Transfer g startedMs := by
  induction actions generalizing s with
  | nil => exact h
  | cons action actions ih =>
    refine ih (s.step action) ?_ fun n => hunpublished (n + 1)
    rcases (s.forward_step action).transfer g startedMs h with ⟨fence, hfence, hreceipts⟩ | h
    · exact absurd (hunpublished 1 fence hfence) hreceipts
    · exact h

end

end Station
end Net
