import Discordium.Lib.Totals
import Discordium.Net.Replication.Feed

/-!
# Net — Replication — Limits

The counters and phases of the server's scopes.  `Effect` says what a call with an answer does to
the whole of the scopes: it is refused, it requires a reset, it moves the barrier, or it places one
record.  `Placed` has what the invariant needs of a placed record, so `Within` is kept by every call
for the same three reasons; `scopes_kept` adds the scopes opened and the states published in one
connection epoch.
-/

namespace Net
open Lib
open Std (ExtTreeMap)

variable {P : Type}

/-! ### Records -/

/-- A record that is gone keeps nothing, a live one has the phase its receipts give, and neither
keeps more proofs than the limit. -/
structure Delivery.Tidy (limits : ScopeLimits) (r : Delivery P) : Prop where
  gone : r.phase.isGone = true → r.desired = none ∧ r.sent = ∅ ∧ r.decoded = none
  live : r.phase.isGone = false → r.refreshPhase = r
  sent : r.sent.size ≤ limits.sentProofsPerScope

namespace Delivery
variable {limits : ScopeLimits} {r : Delivery P}

theorem refreshPhase_inTransition (r : Delivery P) :
    r.refreshPhase.phase.inTransition = r.decoded.isNone := by
  cases hdecoded : r.decoded with
  | none => simp [refreshPhase, hdecoded, DeliveryPhase.inTransition]
  | some receipt =>
    simp only [refreshPhase, hdecoded, Option.isNone_some, Bool.false_eq_true, if_false]
    split_ifs <;> rfl

theorem tidy_refreshPhase (h : r.sent.size ≤ limits.sentProofsPerScope) :
    r.refreshPhase.Tidy limits where
  gone hgone := by simp at hgone
  live _ := rfl
  sent := h

/-- A record that is gone and keeps nothing. -/
theorem tidy_of_gone (hgone : r.phase.isGone = true) (hdesired : r.desired = none)
    (hsent : r.sent = ∅) (hdecoded : r.decoded = none) : r.Tidy limits where
  gone _ := ⟨hdesired, hsent, hdecoded⟩
  live h := by simp [hgone] at h
  sent := by simp [hsent]

/-- A live record is entering until a state of it is decoded. -/
theorem Tidy.inTransition (h : r.Tidy limits) (hlive : r.phase.isGone = false) :
    r.phase.inTransition = r.decoded.isNone := by
  rw [← refreshPhase_inTransition r, h.live hlive]

theorem Tidy.decoded (h : r.Tidy limits) (hphase : r.phase = .active ∨ r.phase = .dormantKnown) :
    r.decoded.isSome = true := by
  have hlive : r.phase.isGone = false := by rcases hphase with hp | hp <;> rw [hp] <;> rfl
  have hrest : r.phase.inTransition = false := by rcases hphase with hp | hp <;> rw [hp] <;> rfl
  rw [h.inTransition hlive] at hrest
  cases hd : r.decoded <;> simp_all

/-- A live record is dormant-known exactly when it is dormant and its desired state is decoded. -/
theorem Tidy.dormantKnown (h : r.Tidy limits) (hlive : r.phase.isGone = false) :
    r.phase = .dormantKnown ↔
      r.dormant = true ∧ ∃ state, r.desired = some state ∧ r.decoded = some state.receipt := by
  have hphase := congrArg phase (h.live hlive)
  simp only [refreshPhase] at hphase
  rw [← hphase]
  cases hdecoded : r.decoded with
  | none => simp
  | some receipt =>
    cases hdesired : r.desired with
    | none => simp
    | some state => cases hdormant : r.dormant <;> simp [eq_comm]

end Delivery

namespace ServerScopes

/-! ### What a call does to the scopes -/

/-- The error of an answer. -/
def errorOf {α : Type} : Except ReplicationError α → Option ReplicationError
  | .error error => some error
  | .ok _ => none

section Attempts
variable [DecidableEq P] [Payload P]

/-- A call with the error it answers. -/
def attempt (s : ServerScopes P) : Call P → ServerScopes P × Option ReplicationError
  | .advanceBarrier worldRevision policy => (s.advanceBarrier worldRevision policy).map id errorOf
  | .offer eligible entity dormant project =>
      (s.offer eligible entity dormant project).map id errorOf
  | .markSent receipt => (s.markSent receipt).map id errorOf
  | .transmitPending entity send => (s.transmitPending entity send).map id errorOf
  | .acknowledge receipt => (s.acknowledge receipt).map id errorOf
  | .exit entity => (s.exit entity).map id errorOf
  | .markExitSent exit => (s.markExitSent exit).map id errorOf
  | .acknowledgeExit exit => (s.acknowledgeExit exit).map id errorOf
  | .destroy entity => (s.destroy entity).map id errorOf
  | .markDestroySent destroy => (s.markDestroySent destroy).map id errorOf
  | .acknowledgeDestroy destroy => (s.acknowledgeDestroy destroy).map id errorOf
  | .report => (s, none)

theorem attempt_fst (s : ServerScopes P) (c : Call P) : (s.attempt c).1 = (s.call c).1 := by
  cases c with
  | markSent receipt =>
    simp only [attempt, call]
    rcases s.markSent receipt with ⟨s', _ | _⟩ <;> rfl
  | exit entity =>
    simp only [attempt, call]
    rcases s.exit entity with ⟨s', _ | _⟩ <;> rfl
  | markExitSent e =>
    simp only [attempt, call]
    rcases s.markExitSent e with ⟨s', _ | _⟩ <;> rfl
  | destroy entity =>
    simp only [attempt, call]
    rcases s.destroy entity with ⟨s', _ | _⟩ <;> rfl
  | markDestroySent d =>
    simp only [attempt, call]
    rcases s.markDestroySent d with ⟨s', _ | _⟩ <;> rfl
  | _ => rfl

end Attempts

variable [Payload P]

/-- The bytes the desired states retain. -/
def retained (s : ServerScopes P) : ℕ := total (fun r => desiredBytes (some r)) s.records

/-- The limits of the scopes and what their records keep. -/
structure Within (s : ServerScopes P) : Prop where
  transitions : s.pendingTransitions ≤ s.limits.pendingTransitions
  bytes : s.bytes = s.retained
  cap : s.bytes ≤ s.limits.retainedPayloadBytes
  known : s.records.size ≤ s.limits.knownEntities
  proofs : s.limits.sentProofsPerScope ≠ 0
  tidy : ∀ (i : ℕ) (r : Delivery P), s.records[i]? = some r → r.Tidy s.limits

/-- The index a call offers a state for. -/
def Call.offered : Call P → Option ℕ
  | .offer _ entity _ _ => some entity.index
  | _ => none

/-- A call places one record. -/
structure Placed (s s' : ServerScopes P) (c : Call P) (index : ℕ) (record : Delivery P) : Prop where
  records : s'.records = s.records.insert index record
  limits : s'.limits = s.limits
  bytes : s'.bytes + desiredBytes s.records[index]? = s.bytes + desiredBytes (some record)
  cap : s'.bytes ≤ s.bytes ∨ s'.bytes ≤ s.limits.retainedPayloadBytes
  tidy : record.Tidy s.limits
  room : record.phase.inTransition = true →
    s.records[index]?.any (·.phase.inTransition) = true ∨
      s.pendingTransitions < s.limits.pendingTransitions
  known : s.records[index]? = none → s.records.size < s.limits.knownEntities
  destroyed : record.destroyed = true → c = .destroy record.identity.entity ∨
    ∃ r, s.records[index]? = some r ∧ r.destroyed = true ∧
      r.identity.entity = record.identity.entity
  offered : c.offered = some index ∨ ∃ r, s.records[index]? = some r ∧
    record.identity = r.identity ∧ (record.desired = none ∨ record.desired = r.desired)

/-- What a call does to the scopes and what it answers. -/
inductive Effect (s : ServerScopes P) (c : Call P) :
    ServerScopes P → Option ReplicationError → Prop where
  | refused (error : ReplicationError) : Effect s c s (some error)
  | reset : Effect s c s.requireReset (some .resetRequired)
  /-- The scopes stay, and perhaps the barrier advances. -/
  | kept (worldRevision policy : ℕ) : Effect s c { s with worldRevision, policy } none
  | revoked (worldRevision policy : ℕ)
      (hroom : ((values s.records).filter (fun r => r.phase ≠ .forgotten)).length ≤
        s.limits.pendingTransitions) :
      Effect s c
        { s with records := s.records.map fun _ r => revoke r, bytes := 0, worldRevision, policy }
        none
  | placed (s' : ServerScopes P) (index : ℕ) (record : Delivery P)
      (h : Placed s s' c index record) :
      Effect s c s' none

/-! ### The effects of the calls -/

section Calls
variable {s : ServerScopes P} {c : Call P}

theorem Effect.same (s : ServerScopes P) (c : Call P) : Effect s c s none :=
  .kept s.worldRevision s.policy

/-- A record replaced by one that keeps the same state. -/
theorem Placed.of_put {index : ℕ} {r record : Delivery P} (hr : s.records[index]? = some r)
    (hdesired : record.desired = r.desired) (hidentity : record.identity = r.identity)
    (hdestroyed : record.destroyed = r.destroyed) (htidy : record.Tidy s.limits)
    (hphase : record.phase.inTransition = true → r.phase.inTransition = true) :
    Placed s (s.put index record) c index record where
  records := rfl
  limits := rfl
  bytes := by simp only [put, hr, desiredBytes, Option.bind_some, hdesired]
  cap := .inl le_rfl
  tidy := htidy
  room h := .inl (by rw [hr]; exact hphase h)
  known h := by simp [hr] at h
  destroyed h := .inr ⟨r, hr, hdestroyed ▸ h, by rw [hidentity]⟩
  offered := .inr ⟨r, hr, hidentity, .inr hdesired⟩

/-- Every record's bytes are among the ones counted. -/
theorem Within.desired_le (h : s.Within) (index : ℕ) :
    desiredBytes s.records[index]? ≤ s.bytes := by
  cases hr : s.records[index]? with
  | none => exact Nat.zero_le _
  | some r =>
    rw [h.bytes]
    exact le_total (fun r => desiredBytes (some r)) hr

theorem advanceBarrier_effect (s : ServerScopes P) (c : Call P) (worldRevision policy : ℕ) :
    Effect s c (s.advanceBarrier worldRevision policy).1
      (errorOf (s.advanceBarrier worldRevision policy).2) := by
  simp only [advanceBarrier]
  split_ifs with h₁ h₂ h₃ h₄
  · exact .refused _
  · exact .refused _
  · exact .reset
  · exact .revoked worldRevision policy (Nat.not_lt.mp h₄)
  · exact .kept worldRevision policy

variable {entity : EntityId}

/-- A publication places the record it makes. -/
theorem publish_effect (hs : s.Within) {representation version endTick : ℕ}
    {dormant : Bool} {payload : P} {newScope : Bool} (hcall : c.offered = some entity.index)
    (hold : newScope = false → ∃ r, s.records[entity.index]? = some r ∧ r.phase.isGone = false ∧
      r.destroyed = false)
    (hroom : newScope = true → s.records[entity.index]?.any (·.phase.inTransition) = true ∨
      s.pendingTransitions < s.limits.pendingTransitions)
    (hknown : s.records[entity.index]? = none → s.records.size < s.limits.knownEntities) :
    Effect s c
      (s.publish s.records[entity.index]? newScope entity representation version endTick dormant
        payload).1
      (errorOf (s.publish s.records[entity.index]? newScope entity representation version
        endTick dormant
        payload).2) := by
  simp only [publish]
  split
  · exact .refused _
  rename_i bytes hbytes
  by_cases hsize : s.limits.payloadBytes < Payload.retainedBytes payload ∨
      s.limits.retainedPayloadBytes < bytes
  · rw [if_pos hsize]
    exact .refused _
  rw [if_neg hsize]
  split
  · rename_i scope next hscope hnext
    obtain ⟨rest, hrest, hsum⟩ := Option.bind_eq_some_iff.mp hbytes
    obtain ⟨hle, rfl⟩ := checkedSub_eq_some.mp hrest
    obtain ⟨rfl, -⟩ := checkedAdd_eq_some.mp hsum
    have hcap : s.bytes - desiredBytes s.records[entity.index]? + Payload.retainedBytes payload ≤
        s.limits.retainedPayloadBytes := Nat.not_lt.mp fun hlt => hsize (.inr hlt)
    have hcount : s.bytes - desiredBytes s.records[entity.index]? + Payload.retainedBytes payload +
        desiredBytes s.records[entity.index]? = s.bytes + Payload.retainedBytes payload := by omega
    cases newScope with
    | true =>
      exact .placed _ entity.index _ ⟨rfl, rfl, hcount, .inr hcap,
        Delivery.tidy_refreshPhase (r := ⟨_, _, ∅, none, dormant, .entering, false, false⟩)
          (by simp),
        fun _ => hroom rfl, hknown, by rintro ⟨⟩, .inl hcall⟩
    | false =>
      obtain ⟨r, hr, hlive, hd⟩ := hold rfl
      have htidy := hs.tidy _ r hr
      simp only [hr, Option.elim_some, Bool.false_eq_true, if_false] at hcount hcap ⊢
      refine .placed _ entity.index _ ⟨rfl, rfl, hr ▸ hcount, .inr hcap,
        Delivery.tidy_refreshPhase htidy.sent, fun h => .inl ?_, fun h => by simp [hr] at h,
        fun h => ?_,
        .inl hcall⟩
      · rw [Delivery.refreshPhase_inTransition, ← htidy.inTransition hlive] at h
        rwa [hr]
      · exact absurd h (by simp [Delivery.refreshPhase, hd])
  · exact .refused _

theorem offer_effect [DecidableEq P] (hs : s.Within) (hwf : s.WellFormed) (eligible : EligibleSet)
    (entity : EntityId) (dormant : Bool) (project : RepresentationGrant → P) :
    Effect s (.offer eligible entity dormant project) (s.offer eligible entity dormant project).1
      (errorOf (s.offer eligible entity dormant project).2) := by
  simp only [offer]
  split_ifs with h₁ h₂
  · exact .refused _
  · exact .refused _
  split
  · exact .refused _
  simp only [offerProjected]
  split_ifs with h₃ h₄ h₅ h₆ h₇
  · exact .refused _
  · exact .refused _
  · exact .refused _
  · exact .refused _
  · refine publish_effect hs rfl (by rintro ⟨⟩) (fun _ => ?_) fun hnone => ?_
    · by_cases ht : s.records[entity.index]?.any (·.phase.inTransition) = true
      · exact .inl ht
      · refine .inr (Nat.not_le.mp fun hfull => h₆ ⟨h₇, ?_, hfull⟩)
        cases hr : s.records[entity.index]? <;> simp_all
    · refine Nat.not_le.mp fun hfull => h₄ ⟨?_, hfull⟩
      rw [contains_eq_isSome, hnone]
      rfl
  · split
    · rename_i r previous hr hprevious
      simp only [hr, opensScope, Option.all_some, Bool.or_eq_true, decide_eq_true_eq, not_or,
        not_not, Bool.not_eq_true] at h₇
      have hlive : r.phase.isGone = false := h₇.2
      have htidy := hs.tidy _ r hr
      split_ifs with h₈ h₉ h₁₀
      · exact .refused _
      · exact .refused _
      · refine .placed _ entity.index _
          (.of_put hr rfl rfl rfl (Delivery.tidy_refreshPhase htidy.sent) ?_)
        rw [Delivery.refreshPhase_inTransition, htidy.inTransition hlive]
        exact id
      · exact publish_effect hs rfl
          (fun _ => ⟨r, hr, hlive, (hwf.record _ r hr).not_destroyed hlive⟩) (by rintro ⟨⟩)
          fun hnone => by simp [hr] at hnone
    · exact .refused _

/-- A proof more than the limit takes the place of the oldest one. -/
theorem size_markSent {sent : ExtTreeMap ℕ StateReceipt} {limit : ℕ} (hlimit : limit ≠ 0)
    (hsize : sent.size ≤ limit) (receipt : StateReceipt) :
    ((if !sent.contains receipt.snapshot ∧ limit ≤ sent.size then sent.minKey?.elim sent sent.erase
      else sent).insert receipt.snapshot receipt).size ≤ limit := by
  split_ifs with hfull
  · cases hmin : sent.minKey? with
    | none =>
      rw [ExtTreeMap.minKey?_eq_none_iff.mp hmin] at hfull
      simp at hfull
      omega
    | some first =>
      have hmem : first ∈ sent := (ExtTreeMap.minKey?_eq_some_iff_mem_and_forall.mp hmin).1
      have hinsert :=
        ExtTreeMap.size_insert_le (t := sent.erase first) (k := receipt.snapshot) (v := receipt)
      have herase := ExtTreeMap.size_erase (t := sent) (k := first)
      rw [if_pos (ExtTreeMap.contains_iff_mem.mpr hmem)] at herase
      simp only [Option.elim_some]
      omega
  · rw [ExtTreeMap.size_insert]
    split_ifs with hmem
    · exact hsize
    · by_contra hlt
      refine hfull ⟨?_, by omega⟩
      rw [Bool.not_eq_true', ← Bool.not_eq_true, ExtTreeMap.contains_iff_mem]
      exact hmem

theorem markSent_effect (hs : s.Within) (receipt : StateReceipt) :
    Effect s c (s.markSent receipt).1 (errorOf (s.markSent receipt).2) := by
  simp only [markSent]
  split
  · exact .refused _
  rename_i r hr
  by_cases hstale : r.identity ≠ receipt.scope ∨ r.phase.isGone = true ∨
      r.desired.map (·.receipt) ≠ some receipt
  · rw [if_pos hstale]
    exact .refused _
  rw [if_neg hstale]
  simp only [not_or, Bool.not_eq_true] at hstale
  have htidy := hs.tidy _ r hr
  refine .placed _ _ _ (.of_put hr rfl rfl rfl ⟨fun hgone => ?_, fun hlive => ?_, ?_⟩ id)
  · simp [hstale.2.1] at hgone
  · have hphase := congrArg Delivery.phase (htidy.live hlive)
    simp only [Delivery.refreshPhase] at hphase ⊢
    rw [hphase]
  · exact size_markSent hs.proofs htidy.sent receipt

theorem transmitPending_effect (hs : s.Within) (entity : EntityId) (send : FullState P → Bool) :
    Effect s c (s.transmitPending entity send).1 (errorOf (s.transmitPending entity send).2) := by
  simp only [transmitPending]
  split_ifs with h₁
  · exact .refused _
  split
  · exact .same s c
  split_ifs with h₂
  · exact .same s c
  rename_i state hstate
  have hsent := @markSent_effect _ _ s c hs state.receipt
  cases hm : s.markSent state.receipt with
  | mk s' answer =>
    rw [hm] at hsent
    cases answer <;> exact hsent

theorem acknowledge_effect (hs : s.Within) (receipt : StateReceipt) :
    Effect s c (s.acknowledge receipt).1 (errorOf (s.acknowledge receipt).2) := by
  simp only [acknowledge]
  split
  · exact .refused _
  rename_i r hr
  split_ifs with hknown
  · exact .same s c
  simp only [validateAcknowledgment] at hr
  split at hr
  · cases hr
  rename_i r' hlookup
  split_ifs at hr
  all_goals obtain rfl := Except.ok.inj hr
  · contradiction
  · refine .placed _ _ _ (.of_put hlookup rfl rfl rfl (Delivery.tidy_refreshPhase ?_) ?_)
    · exact ExtTreeMap.size_filter_le_size.trans (hs.tidy _ r' hlookup).sent
    · rw [Delivery.refreshPhase_inTransition]
      rintro ⟨⟩

/-- The effect of leaving a live scope, and perhaps destroying its entity. -/
theorem left_effect (hs : s.Within) {index : ℕ} {r : Delivery P} (hr : s.records[index]? = some r)
    (destroyed : Bool) (hroom : r.phase.inTransition = true ∨
      s.pendingTransitions < s.limits.pendingTransitions)
    (hcall : destroyed = true → c = .destroy r.identity.entity) :
    Effect s c
      { s.put index { r.withdraw with phase := .leaving, exitSent := false, destroyed } with
        bytes := s.bytes - desiredBytes (some r) } none := by
  have hle := hs.desired_le index
  rw [hr] at hle
  refine .placed _ index _ ⟨rfl, rfl, ?_, .inl (Nat.sub_le _ _),
    Delivery.tidy_of_gone rfl rfl rfl rfl, fun _ => ?_, fun h => by simp [hr] at h,
    fun h => .inl (hcall h),
    .inr ⟨r, hr, rfl, .inl rfl⟩⟩
  · rw [hr]
    exact Nat.sub_add_cancel hle
  · rwa [hr]

/-- What `exit` does to a live scope that is not destroyed. -/
theorem exit_live {r : Delivery P} (hreset : s.resetRequired = false)
    (hr : s.record entity = some r) (hd : r.destroyed = false) (hlive : r.phase.isGone = false) :
    s.exit entity = (s.requireReset, .error .resetRequired) ∨
      (r.phase.inTransition = true ∨ s.pendingTransitions < s.limits.pendingTransitions) ∧
      s.exit entity =
        ({ s.put entity.index { r.withdraw with phase := .leaving, exitSent := false } with
            bytes := s.bytes - desiredBytes (some r) }, .ok ⟨r.identity⟩) := by
  simp only [exit, hreset, hr, hd, hlive, Bool.or_false, Bool.false_eq_true, if_false]
  split_ifs with hfull
  · exact .inl rfl
  · refine .inr ⟨?_, rfl⟩
    cases ht : r.phase.inTransition with
    | true => exact .inl rfl
    | false => exact .inr (Nat.not_le.mp fun h => hfull ⟨by rw [ht]; rfl, h⟩)

section
variable (hs : s.Within)
include hs

theorem exit_effect (entity : EntityId) :
    Effect s c (s.exit entity).1 (errorOf (s.exit entity).2) := by
  cases hreset : s.resetRequired with
  | true => simp only [exit, hreset, if_true]; exact .refused _
  | false =>
    cases hr : s.record entity with
    | none => simp only [exit, hreset, hr]; exact .refused _
    | some r =>
      cases hd : r.destroyed with
      | true => simp only [exit, hreset, hr, hd]; exact .refused _
      | false =>
        cases hgone : r.phase.isGone with
        | true => simp only [exit, hreset, hr, hd, hgone, Bool.or_true]; exact .same s c
        | false =>
          rcases exit_live hreset hr hd hgone with h | ⟨hroom, h⟩ <;> rw [h]
          · exact .reset
          · exact left_effect hs (record_eq_some.mp hr).1 r.destroyed hroom fun h => by
              simp [hd] at h

theorem destroy_effect (entity : EntityId) :
    Effect s (.destroy entity) (s.destroy entity).1 (errorOf (s.destroy entity).2) := by
  cases hreset : s.resetRequired with
  | true => simp only [destroy, hreset, if_true]; exact .refused _
  | false =>
    simp only [destroy, hreset, Bool.false_eq_true, if_false]
    cases hr : s.record entity with
    | none => exact .refused _
    | some r =>
      obtain ⟨hlookup, hentity⟩ := record_eq_some.mp hr
      dsimp only
      split_ifs with h₁ h₂ h₃
      · exact .same s _
      · exact .refused _
      · exact .refused _
      · rw [Bool.not_eq_true] at h₁ h₃
        rcases exit_live hreset hr h₁ h₃ with h | ⟨hroom, h⟩ <;> rw [h]
        · exact .reset
        · have hleft :=
            left_effect hs hlookup true hroom fun _ => congrArg Call.destroy hentity.symm
          simp only [put, modify_insert]
          exact hleft

/-- The effect of changing nothing but the marks of a record that is gone. -/
theorem gone_effect {index : ℕ} {r : Delivery P} (hr : s.records[index]? = some r)
    (hgone : r.phase.isGone = true) (exitSent : Bool) {phase : DeliveryPhase}
    (hphase : phase = r.phase ∨ phase = .forgotten) :
    Effect s c (s.put index { r with phase, exitSent }) none := by
  obtain ⟨hdesired, hsent, hdecoded⟩ := (hs.tidy _ r hr).gone hgone
  refine .placed _ index _
    (.of_put hr rfl rfl rfl (Delivery.tidy_of_gone ?_ hdesired hsent hdecoded) ?_)
  · rcases hphase with rfl | rfl
    · exact hgone
    · rfl
  · rcases hphase with rfl | rfl
    · exact id
    · exact nofun

theorem markExitSent_effect (e : ScopeExit) :
    Effect s c (s.markExitSent e).1 (errorOf (s.markExitSent e).2) := by
  simp only [markExitSent]
  cases hr : s.records[e.scope.entity.index]? with
  | none => exact .refused _
  | some r =>
    dsimp only
    split_ifs with h
    · exact .refused _
    · simp only [not_or, not_not] at h
      exact gone_effect hs hr (by rw [h.2.2]; rfl) true (.inl rfl)

theorem acknowledgeExit_effect (e : ScopeExit) :
    Effect s c (s.acknowledgeExit e).1 (errorOf (s.acknowledgeExit e).2) := by
  simp only [acknowledgeExit]
  cases hr : s.records[e.scope.entity.index]? with
  | none => exact .refused _
  | some r =>
    dsimp only
    split_ifs with h
    · exact .refused _
    · simp only [not_or, not_not, Bool.not_eq_true', Bool.not_eq_false] at h
      exact gone_effect hs hr h.2.2.2 r.exitSent (.inr rfl)

theorem markDestroySent_effect (d : Destroy) :
    Effect s c (s.markDestroySent d).1 (errorOf (s.markDestroySent d).2) := by
  simp only [markDestroySent]
  split_ifs with h₁
  · exact .refused _
  cases hr : s.records[d.entity.index]? with
  | none => exact .refused _
  | some r =>
    dsimp only
    split_ifs with h
    · exact .refused _
    · simp only [not_or, not_not] at h
      exact gone_effect hs hr (by rw [h.2.2]; rfl) true (.inl rfl)

theorem acknowledgeDestroy_effect (hwf : s.WellFormed) (d : Destroy) :
    Effect s c (s.acknowledgeDestroy d).1 (errorOf (s.acknowledgeDestroy d).2) := by
  simp only [acknowledgeDestroy]
  split_ifs with h₁
  · exact .refused _
  cases hr : s.records[d.entity.index]? with
  | none => exact .refused _
  | some r =>
    dsimp only
    split_ifs with h
    · exact .refused _
    · simp only [not_or, not_not, Bool.not_eq_true', Bool.not_eq_false] at h
      exact gone_effect hs hr ((hwf.record _ r hr).destroyed h.2.1) r.exitSent (.inr rfl)

end

/-- **Every call has one of the effects.** -/
theorem attempt_effect [DecidableEq P] (hs : s.Within) (hwf : s.WellFormed) (c : Call P) :
    Effect s c (s.attempt c).1 (s.attempt c).2 := by
  cases c with
  | advanceBarrier worldRevision policy => exact advanceBarrier_effect s _ worldRevision policy
  | offer eligible entity dormant project =>
      exact offer_effect hs hwf eligible entity dormant project
  | markSent receipt => exact markSent_effect hs receipt
  | transmitPending entity send => exact transmitPending_effect hs entity send
  | acknowledge receipt => exact acknowledge_effect hs receipt
  | exit entity => exact exit_effect hs entity
  | markExitSent e => exact markExitSent_effect hs e
  | acknowledgeExit e => exact acknowledgeExit_effect hs e
  | destroy entity => exact destroy_effect hs entity
  | markDestroySent d => exact markDestroySent_effect hs d
  | acknowledgeDestroy d => exact acknowledgeDestroy_effect hs hwf d
  | report => exact .same s _

end Calls

/-! ### The limits are kept -/

section Kept
variable {s s' : ServerScopes P} {c : Call P}

omit [Payload P] in
theorem pendingTransitions_eq (s : ServerScopes P) :
    s.pendingTransitions = total (fun r => if r.phase.inTransition then 1 else 0) s.records :=
  length_filter_values _ _

/-- Records that are all gone retain nothing. -/
theorem retained_eq_zero (h : ∀ (i : ℕ) (r : Delivery P), s.records[i]? = some r →
    r.desired = none) :
    s.retained = 0 := by
  have hle : s.retained ≤ total (fun _ => 0) s.records :=
    total_le_total fun i r hr => by simp [desiredBytes, h i r hr]
  have hzero : total (fun _ : Delivery P => 0) s.records = 0 := by simp [total]
  omega

theorem Placed.within {index : ℕ} {record : Delivery P} (h : Placed s s' c index record)
    (hs : s.Within) : s'.Within where
  transitions := by
    have hput :=
      total_put (fun r : Delivery P => if r.phase.inTransition then 1 else 0) s.records index record
    rw [← h.records, ← pendingTransitions_eq, ← pendingTransitions_eq] at hput
    have hlimit := hs.transitions
    rw [h.limits]
    cases ht : record.phase.inTransition with
    | false => simp only [ht, Bool.false_eq_true, if_false] at hput; omega
    | true =>
      simp only [ht, if_true] at hput
      rcases h.room ht with hold | hroom
      · -- one transition takes the place of another
        cases hr : s.records[index]? with
        | none => simp [hr] at hold
        | some r =>
          have hrt : r.phase.inTransition = true := by simpa [hr] using hold
          simp only [hr, Option.elim_some, hrt, if_true] at hput
          omega
      · omega
  bytes := by
    have hput := total_put (fun r : Delivery P => desiredBytes (some r)) s.records index record
    have hold : s.records[index]?.elim 0 (fun r => desiredBytes (some r)) =
        desiredBytes s.records[index]? := by
      cases s.records[index]? <;> rfl
    have hbytes := h.bytes
    have hbase := hs.bytes
    simp only [retained] at hbase ⊢
    rw [h.records]
    omega
  cap := by
    have hcap := hs.cap
    rw [h.limits]
    rcases h.cap with hle | hle <;> omega
  known := by
    have hknown := hs.known
    rw [h.limits, h.records, ExtTreeMap.size_insert]
    split_ifs with hmem
    · exact hknown
    · exact h.known (by simpa using hmem)
  proofs := h.limits ▸ hs.proofs
  tidy i r hr := by
    rw [h.limits]
    rw [h.records, lookup_insert] at hr
    split_ifs at hr
    · exact Option.some.inj hr ▸ h.tidy
    · exact hs.tidy i r hr

/-- The records are mapped to gone ones, of which few enough are leaving. -/
theorem Within.withdrawn (hs : s.Within) {f : Delivery P → Delivery P}
    (hrecords : s'.records = s.records.map fun _ r => f r) (hlimits : s'.limits = s.limits)
    (hbytes : s'.bytes = 0)
    (hgone : ∀ (i : ℕ) r, s.records[i]? = some r → (f r).phase.isGone = true ∧
      (f r).desired = none ∧ (f r).sent = ∅ ∧ (f r).decoded = none)
    (hroom : total (fun r => if (f r).phase.inTransition then 1 else 0) s.records ≤
      s.limits.pendingTransitions) : s'.Within := by
  have hlookup : ∀ (i : ℕ) r', s'.records[i]? = some r' → ∃ r, s.records[i]? = some r ∧
      f r = r' := by
    intro i r' hr'
    rw [hrecords, ExtTreeMap.getElem?_map] at hr'
    exact Option.map_eq_some_iff.mp hr'
  have hnone : ∀ (i : ℕ) r', s'.records[i]? = some r' → r'.desired = none := by
    intro i r' hr'
    obtain ⟨r, hr, rfl⟩ := hlookup i r' hr'
    exact (hgone i r hr).2.1
  refine ⟨?_, ?_, ?_, ?_, hlimits ▸ hs.proofs, ?_⟩
  · rw [pendingTransitions_eq, hrecords, total_comp, hlimits]
    exact hroom
  · rw [hbytes, retained_eq_zero hnone]
  · rw [hbytes]
    exact Nat.zero_le _
  · rw [hrecords, ExtTreeMap.size_map, hlimits]
    exact hs.known
  · intro i r' hr'
    obtain ⟨r, hr, rfl⟩ := hlookup i r' hr'
    obtain ⟨h₁, h₂, h₃, h₄⟩ := hgone i r hr
    exact Delivery.tidy_of_gone h₁ h₂ h₃ h₄

variable {error : Option ReplicationError}

/-- **Every effect keeps the limits.** -/
theorem Effect.within (h : Effect s c s' error) (hs : s.Within) :
    s'.Within := by
  cases h with
  | refused => exact hs
  | reset =>
    refine hs.withdrawn rfl rfl rfl (fun _ _ _ => ⟨rfl, rfl, rfl, rfl⟩) ?_
    simp [total, DeliveryPhase.inTransition]
  | kept => exact ⟨hs.transitions, hs.bytes, hs.cap, hs.known, hs.proofs, hs.tidy⟩
  | revoked worldRevision policy hroom =>
    refine hs.withdrawn rfl rfl rfl (fun i r hr => ?_) ?_
    · simp only [revoke]
      split_ifs with h₁ h₂
      · exact ⟨by rw [h₁]; rfl, (hs.tidy i r hr).gone (by rw [h₁]; rfl)⟩
      · exact ⟨rfl, rfl, rfl, rfl⟩
      · exact ⟨rfl, rfl, rfl, rfl⟩
    · rw [length_filter_values] at hroom
      refine (total_le_total fun i r _ => ?_).trans hroom
      simp only [revoke]
      split_ifs <;> simp_all [DeliveryPhase.inTransition]
  | placed s' index record hplaced => exact hplaced.within hs

theorem Effect.limits (h : Effect s c s' error) :
    s'.limits = s.limits := by
  cases h with
  | refused | reset | kept | revoked => rfl
  | placed _ _ _ h => exact h.limits

theorem new_within {connection epoch worldRevision policy : ℕ} {limits : ScopeLimits}
    (h : new connection epoch worldRevision policy limits = .ok s) :
    s.Within ∧ s.limits = limits := by
  simp only [new] at h
  split_ifs at h
  simp only [ScopeLimits.validate] at h
  split_ifs at h with hlimits
  · cases h
  simp only [Except.map, Except.ok.injEq] at h
  subst h
  refine ⟨⟨Nat.zero_le _, ?_, Nat.zero_le _, ?_,
    fun h => hlimits (.inr (.inr (.inr (.inr h)))), ?_⟩, rfl⟩
  · exact (total_empty _).symm
  · simp
  · simp

end Kept

/-! ### What a step does to identities and states -/

section Steps
omit [Payload P]
variable {s s' : ServerScopes P} {c : Call P} {index : ℕ} {r' : Delivery P}
  {old : Option (Delivery P)}

/-- A record keeps its scope, which stays gone if it was, or is live in a later one. -/
theorem RecordStep.scope (h : RecordStep s s' c index old (some r')) :
    (∃ r, old = some r ∧ r'.identity = r.identity ∧ (r'.phase.isGone = false →
      r.phase.isGone = false)) ∨ r'.phase.isGone = false ∧ ∀ r, old = some r →
        r.identity.scope < r'.identity.scope := by
  cases h with
  | same => exact .inl ⟨r', rfl, rfl, id⟩
  | entered _ state dormant _ _ hold => exact .inr ⟨rfl, fun r hr => (hold r hr).1⟩
  | proven r | marked r => exact .inl ⟨r, rfl, rfl, id⟩
  | refreshed r _ _ _ hlive | requalified r _ hlive | decoded r _ _ _ hlive | left r _ hlive =>
    exact .inl ⟨r, rfl, rfl, fun _ => hlive⟩
  | forgotten r | reset r => exact .inl ⟨r, rfl, rfl, fun hlive => by cases hlive⟩
  | revoked r =>
    refine .inl ⟨r, rfl, ?_⟩
    simp only [revoke]
    split_ifs with h₁ h₂
    · exact ⟨rfl, id⟩
    · exact ⟨rfl, fun hlive => by cases hlive⟩
    · exact ⟨rfl, fun hlive => by cases hlive⟩

/-- A record is not dropped. -/
theorem RecordStep.stays {r : Delivery P} {new : Option (Delivery P)}
    (h : RecordStep s s' c index (some r) new) : ∃ r', new = some r' := by
  cases h <;> exact ⟨_, rfl⟩

/-- A record keeps its state, drops it, or publishes one under the next snapshot. -/
theorem RecordStep.state (h : RecordStep s s' c index old (some r')) {state : FullState P}
    (hstate : r'.desired = some state) :
    (∃ r, old = some r ∧ r.desired = some state) ∨
      state.snapshot = s.nextSnapshot ∧ s'.nextSnapshot = s.nextSnapshot + 1 := by
  cases h with
  | same => exact .inl ⟨r', rfl, hstate⟩
  | entered _ fresh dormant hfresh hnext =>
    obtain rfl := Option.some.inj hstate
    exact .inr ⟨hfresh.snapshot, hnext⟩
  | refreshed r previous fresh dormant _ _ hfresh hnext =>
    obtain rfl := Option.some.inj hstate
    exact .inr ⟨hfresh.snapshot, hnext⟩
  | requalified r | proven r | decoded r | marked r | forgotten r => exact .inl ⟨r, rfl, hstate⟩
  | left | reset => cases hstate
  | revoked r =>
    simp only [revoke] at hstate
    split_ifs at hstate
    · exact .inl ⟨r, rfl, hstate⟩
    all_goals cases hstate

end Steps

/-! ### Histories -/

/-- The scopes with what was opened and published in the connection epoch, oldest first. -/
structure History (P : Type) where
  server : ServerScopes P
  opened : List ScopeIdentity
  published : List (FullState P)

inductive Operation (P : Type) where
  | call (c : Call P)
  | reset (epoch : ℕ)

/-- The scope the record of an index is live in. -/
def liveScope (s : ServerScopes P) (index : ℕ) : Option ScopeIdentity :=
  (s.records[index]?.filter (!·.phase.isGone)).map (·.identity)

/-- The scope an offer opens: the record is live in it, and was not before. -/
def openedBy (s s' : ServerScopes P) (c : Call P) : Option ScopeIdentity :=
  c.offered.bind fun index => (s'.liveScope index).filter fun scope => s.liveScope index ≠
    some scope

/-- The state an offer publishes. -/
def publishedBy [DecidableEq P] (s s' : ServerScopes P) (c : Call P) : Option (FullState P) :=
  c.offered.bind fun index =>
    (s'.records[index]?.bind (·.desired)).filter fun state =>
      s.records[index]?.bind (·.desired) ≠ some state

namespace History
variable [DecidableEq P]

def start (server : ServerScopes P) : History P := ⟨server, [], []⟩

def step (history : History P) : Operation P → History P
  | .call c =>
    let server := (history.server.attempt c).1
    ⟨server, history.opened ++ (openedBy history.server server c).toList,
      history.published ++ (publishedBy history.server server c).toList⟩
  | .reset epoch =>
    match history.server.reset epoch with
    | (server, .ok ()) => start server
    | (server, .error _) => { history with server }

/-- The error an operation answers. -/
def answer (history : History P) : Operation P → Option ReplicationError
  | .call c => (history.server.attempt c).2
  | .reset epoch => errorOf (history.server.reset epoch).2

/-- The history is that of the server: the records' scopes and states are in it, and its scopes and
snapshots are behind the server's. -/
structure Traced (history : History P) : Prop where
  epoch : history.server.epoch ≠ 0
  wf : history.server.WellFormed
  within : history.server.Within
  identity : ∀ (i : ℕ) r, history.server.records[i]? = some r → r.identity ∈ history.opened
  held : ∀ a ∈ history.opened, ∃ r, history.server.records[a.entity.index]? = some r ∧
    a.scope ≤ r.identity.scope
  epochs : history.opened.Pairwise fun a b => a.entity.index = b.entity.index → a.scope < b.scope
  state : ∀ (i : ℕ) r state, history.server.records[i]? = some r → r.desired = some state →
    state ∈ history.published
  spent : ∀ state ∈ history.published, state.snapshot < history.server.nextSnapshot
  snapshots : history.published.Pairwise fun a b => a.snapshot < b.snapshot

omit [DecidableEq P] in
/-- The scopes without a record, at the beginning of a connection epoch. -/
theorem traced_start {server : ServerScopes P} (hepoch : server.epoch ≠ 0) (hwithin : server.Within)
    (hnext : server.nextSnapshot = 1) (hrecords : server.records = ∅) : (start server).Traced := by
  have hpos : server.nextSnapshot ≠ 0 := by rw [hnext]; exact one_ne_zero
  refine ⟨hepoch, ⟨hpos, ?_⟩, hwithin, ?_, ?_, .nil, ?_, ?_, .nil⟩ <;> simp [start, hrecords]

/-- A record that a call changes beyond its marks is one of the index it offers. -/
theorem offered_or_same {s : ServerScopes P} (hs : s.Within) (hwf : s.WellFormed)
    (c : Call P) {i : ℕ} {r' : Delivery P} (hr' : (s.attempt c).1.records[i]? = some r') :
    c.offered = some i ∨ ∃ r, s.records[i]? = some r ∧ r'.identity = r.identity ∧
      (r'.desired = none ∨ r'.desired = r.desired) := by
  have heffect := attempt_effect hs hwf c
  generalize (s.attempt c).1 = s' at heffect hr'
  generalize (s.attempt c).2 = error at heffect
  cases heffect with
  | refused | kept => exact .inr ⟨r', hr', rfl, .inr rfl⟩
  | reset =>
    rw [requireReset, ExtTreeMap.getElem?_map] at hr'
    obtain ⟨r, hr, rfl⟩ := Option.map_eq_some_iff.mp hr'
    exact .inr ⟨r, hr, rfl, .inl rfl⟩
  | revoked =>
    rw [ExtTreeMap.getElem?_map] at hr'
    obtain ⟨r, hr, rfl⟩ := Option.map_eq_some_iff.mp hr'
    obtain ⟨hidentity, hdesired, -⟩ := revoke_closed (hwf.record i r hr)
    exact .inr ⟨r, hr, hidentity, .inl hdesired⟩
  | placed _ index record h =>
    rw [h.records, lookup_insert] at hr'
    split_ifs at hr' with hi
    · obtain rfl := Option.some.inj hr'
      exact hi ▸ h.offered
    · exact .inr ⟨r', hr', rfl, .inr rfl⟩

omit [Payload P] [DecidableEq P] in
theorem liveScope_eq_some {s : ServerScopes P} {index : ℕ} {scope : ScopeIdentity} :
    s.liveScope index = some scope ↔
      ∃ r, s.records[index]? = some r ∧ r.phase.isGone = false ∧ r.identity = scope := by
  simp [liveScope, Option.filter_eq_some_iff, and_assoc]

omit [Payload P] [DecidableEq P] in
theorem mem_openedBy {s s' : ServerScopes P} {c : Call P} {scope : ScopeIdentity} :
    scope ∈ (openedBy s s' c).toList ↔ ∃ index, c.offered = some index ∧
      s'.liveScope index = some scope ∧ s.liveScope index ≠ some scope := by
  simp only [openedBy, Option.mem_toList, Option.bind_eq_some_iff, Option.filter_eq_some_iff,
    decide_eq_true_eq]

omit [Payload P] in
theorem mem_publishedBy {s s' : ServerScopes P} {c : Call P} {state : FullState P} :
    state ∈ (publishedBy s s' c).toList ↔ ∃ index r', c.offered = some index ∧
      s'.records[index]? = some r' ∧ r'.desired = some state ∧
      s.records[index]?.bind (·.desired) ≠ some state := by
  simp only [publishedBy, Option.mem_toList, Option.bind_eq_some_iff, Option.filter_eq_some_iff,
    decide_eq_true_eq, exists_and_left]
  tauto

omit [Payload P] [DecidableEq P] in
/-- At most one entry is added to a history at a time. -/
theorem pairwise_toList {α : Type} (R : α → α → Prop) (x : Option α) : x.toList.Pairwise R := by
  cases x with
  | none => exact .nil
  | some a => exact List.pairwise_singleton R a

section Traces
variable {history : History P} (h : history.Traced) (c : Call P)
include h

theorem Traced.stepped : Stepped history.server (history.server.attempt c).1 c := by
  rw [attempt_fst]
  exact call_stepped h.wf h.epoch c

/-- The scopes a call opens come after those of their index. -/
theorem Traced.call_epochs :
    (history.opened ++ (openedBy history.server (history.server.attempt c).1 c).toList).Pairwise
      fun a b => a.entity.index = b.entity.index → a.scope < b.scope := by
  have hstep := h.stepped c
  have hwf' := hstep.wellFormed h.wf
  refine List.pairwise_append.mpr ⟨h.epochs, pairwise_toList _ _, fun a ha b hb hindex => ?_⟩
  obtain ⟨index, -, hscope, hne⟩ := mem_openedBy.mp hb
  obtain ⟨r', hr', hlive, rfl⟩ := liveScope_eq_some.mp hscope
  obtain ⟨r, hr, hle⟩ := h.held a ha
  rw [hindex, (hwf'.record index r' hr').index] at hr
  have hrecord := hstep.record index
  rw [hr, hr'] at hrecord
  rcases hrecord.scope with ⟨_, ⟨rfl⟩, hsame, hwas⟩ | ⟨-, hlt⟩
  · exact absurd (liveScope_eq_some.mpr ⟨r, hr, hwas hlive, hsame.symm⟩) hne
  · exact hle.trans_lt (hlt r rfl)

/-- The states a call publishes come under the next snapshot. -/
theorem Traced.call_snapshot {state : FullState P}
    (hstate : state ∈ (publishedBy history.server (history.server.attempt c).1 c).toList) :
    state.snapshot = history.server.nextSnapshot ∧
      (history.server.attempt c).1.nextSnapshot = history.server.nextSnapshot + 1 := by
  obtain ⟨index, r', -, hr', hdesired, hne⟩ := mem_publishedBy.mp hstate
  have hrecord := (h.stepped c).record index
  rw [hr'] at hrecord
  rcases hrecord.state hdesired with ⟨r, hr, hsame⟩ | hfresh
  · exact absurd (by rw [hr, Option.bind_some, hsame]) hne
  · exact hfresh

/-- **A call keeps the history.** -/
theorem Traced.call : (history.step (.call c)).Traced := by
  have hstep := h.stepped c
  have hwf' := hstep.wellFormed h.wf
  refine ⟨?_, hwf', (attempt_effect h.within h.wf c).within h.within, ?_, ?_, h.call_epochs c,
    ?_, ?_, ?_⟩
  · exact hstep.epoch.symm ▸ h.epoch
  · intro i r' hr'
    rcases offered_or_same h.within h.wf c hr' with hcall | ⟨r, hr, hidentity, -⟩
    · have hrecord := hstep.record i
      rw [show (history.server.attempt c).1.records[i]? = some r' from hr'] at hrecord
      rcases hrecord.scope with ⟨r, hr, hidentity, -⟩ | ⟨hlive, hlt⟩
      · exact List.mem_append_left _ (hidentity ▸ h.identity i r hr)
      · -- the record is live in a scope past the one it had
        refine List.mem_append_right _ (mem_openedBy.mpr ⟨i, hcall,
          liveScope_eq_some.mpr ⟨r', hr', hlive, rfl⟩, fun hsame => ?_⟩)
        obtain ⟨r, hr, -, hidentity⟩ := liveScope_eq_some.mp hsame
        exact (hlt r hr).ne (by rw [hidentity])
    · exact List.mem_append_left _ (hidentity ▸ h.identity i r hr)
  · intro a ha
    rcases List.mem_append.mp ha with ha | ha
    · obtain ⟨r, hr, hle⟩ := h.held a ha
      have hrecord := hstep.record a.entity.index
      rw [hr] at hrecord
      obtain ⟨r', hr'⟩ := hrecord.stays
      rw [hr'] at hrecord
      refine ⟨r', hr', hle.trans ?_⟩
      rcases hrecord.scope with ⟨_, ⟨rfl⟩, hsame, -⟩ | ⟨-, hlt⟩
      · rw [hsame]
      · exact (hlt r rfl).le
    · obtain ⟨index, -, hlive, -⟩ := mem_openedBy.mp ha
      obtain ⟨r', hr', -, rfl⟩ := liveScope_eq_some.mp hlive
      refine ⟨r', ?_, le_rfl⟩
      rw [(hwf'.record index r' hr').index]
      exact hr'
  · intro i r' state hr' hstate
    rcases offered_or_same h.within h.wf c hr' with hcall | ⟨r, hr, -, hnone | hsame⟩
    · by_cases hsame : history.server.records[i]?.bind (·.desired) = some state
      · obtain ⟨r, hr, hdesired⟩ := Option.bind_eq_some_iff.mp hsame
        exact List.mem_append_left _ (h.state i r state hr hdesired)
      · exact List.mem_append_right _ (mem_publishedBy.mpr ⟨i, r', hcall, hr', hstate, hsame⟩)
    · simp [hnone] at hstate
    · exact List.mem_append_left _ (h.state i r state hr (hsame ▸ hstate))
  · intro state hstate
    rcases List.mem_append.mp hstate with hstate | hstate
    · exact (h.spent state hstate).trans_le hstep.next
    · obtain ⟨hsnapshot, hnext⟩ := h.call_snapshot c hstate
      exact hsnapshot.trans_lt (hnext ▸ Nat.lt_succ_self _)
  · refine List.pairwise_append.mpr ⟨h.snapshots, pairwise_toList _ _, fun a ha b hb => ?_⟩
    exact (h.spent a ha).trans_eq (h.call_snapshot c hb).1.symm

end Traces

theorem Traced.step {history : History P} (h : history.Traced) (op : Operation P) :
    (history.step op).Traced := by
  cases op with
  | call c => exact h.call c
  | reset epoch =>
    simp only [History.step, ServerScopes.reset]
    by_cases hstale : epoch ≤ history.server.epoch
    · rw [if_pos hstale]
      exact h
    · rw [if_neg hstale]
      have hw := h.within
      refine traced_start (Nat.ne_zero_of_lt (Nat.not_le.mp hstale)) ⟨?_, ?_, ?_, ?_, hw.proofs,
        ?_⟩ rfl rfl
      · exact Nat.zero_le _
      · exact (total_empty _).symm
      · exact Nat.zero_le _
      · exact Nat.zero_le _
      · simp

/-- What the scopes of a peer keep, with the limits they were made with. -/
structure Kept (limits : ScopeLimits) (history : History P) : Prop where
  made : history.server.limits = limits
  transitions : history.server.pendingTransitions ≤ limits.pendingTransitions
  bytes : history.server.bytes = history.server.retained
  cap : history.server.bytes ≤ limits.retainedPayloadBytes
  known : history.server.records.size ≤ limits.knownEntities
  gone : ∀ (i : ℕ) r, history.server.records[i]? = some r → r.phase = .leaving ∨
    r.phase = .forgotten → r.desired = none ∧ r.sent = ∅ ∧ r.decoded = none
  decoded : ∀ (i : ℕ) r, history.server.records[i]? = some r → r.phase = .active ∨
    r.phase = .dormantKnown → r.decoded.isSome = true
  dormant : ∀ (i : ℕ) r, history.server.records[i]? = some r → r.phase.isGone = false →
    (r.phase = .dormantKnown ↔
      r.dormant = true ∧ ∃ state, r.desired = some state ∧ r.decoded = some state.receipt)
  proofs : ∀ (i : ℕ) r, history.server.records[i]? = some r →
    r.sent.size ≤ limits.sentProofsPerScope
  /-- The scopes of the records are all among those opened, whose epochs increase. -/
  opened : (∀ (i : ℕ) r, history.server.records[i]? = some r → r.identity ∈ history.opened) ∧
    history.opened.Pairwise fun a b => a.entity.index = b.entity.index → a.scope < b.scope
  /-- The states of the records are all among those published, whose snapshots increase. -/
  published : (∀ (i : ℕ) r state, history.server.records[i]? = some r → r.desired = some state →
      state ∈ history.published) ∧
    history.published.Pairwise fun a b => a.snapshot < b.snapshot
  /-- The bytes an offer or an exit takes off the counter are counted in it. -/
  counted : ∀ i : ℕ, desiredBytes history.server.records[i]? ≤ history.server.bytes
  refused : ∀ op error, history.answer op = some error → error ≠ .resetRequired →
    history.step op = history

/-- An operation that answers an error other than a required reset changes nothing. -/
theorem Traced.refused {history : History P} (h : history.Traced) {op : Operation P}
    {error : ReplicationError} (hanswer : history.answer op = some error)
    (herror : error ≠ .resetRequired) : history.step op = history := by
  cases op with
  | call c =>
    simp only [answer] at hanswer
    have heffect := attempt_effect h.within h.wf c
    rw [hanswer] at heffect
    have hsame : (history.server.attempt c).1 = history.server := by
      generalize (history.server.attempt c).1 = s' at heffect
      cases heffect with
      | refused => rfl
      | reset => exact absurd rfl herror
    have hopened : (openedBy history.server history.server c).toList = [] :=
      List.eq_nil_iff_forall_not_mem.mpr fun a ha => by
        obtain ⟨index, -, hlive, hne⟩ := mem_openedBy.mp ha
        exact hne hlive
    have hpublished : (publishedBy history.server history.server c).toList = [] :=
      List.eq_nil_iff_forall_not_mem.mpr fun state hstate => by
        obtain ⟨index, r, -, hr, hdesired, hne⟩ := mem_publishedBy.mp hstate
        exact hne (by rw [hr, Option.bind_some, hdesired])
    simp only [History.step, hsame, hopened, hpublished, List.append_nil]
  | reset epoch =>
    simp only [answer, ServerScopes.reset] at hanswer
    simp only [History.step, ServerScopes.reset]
    split_ifs at hanswer ⊢
    · rfl
    · cases hanswer

theorem Traced.kept {history : History P} (h : history.Traced) :
    history.Kept history.server.limits where
  made := rfl
  transitions := h.within.transitions
  bytes := h.within.bytes
  cap := h.within.cap
  known := h.within.known
  gone i r hr hphase := by
    refine (h.within.tidy i r hr).gone ?_
    rcases hphase with hp | hp <;> rw [hp] <;> rfl
  decoded i r hr := (h.within.tidy i r hr).decoded
  dormant i r hr := (h.within.tidy i r hr).dormantKnown
  proofs i r hr := (h.within.tidy i r hr).sent
  opened := ⟨h.identity, h.epochs⟩
  published := ⟨h.state, h.snapshots⟩
  counted := h.within.desired_le
  refused op error := h.refused

theorem step_limits {history : History P} (h : history.Traced) (op : Operation P) :
    (history.step op).server.limits = history.server.limits := by
  cases op with
  | call c => exact (attempt_effect h.within h.wf c).limits
  | reset epoch =>
    simp only [History.step, ServerScopes.reset]
    split_ifs <;> rfl

/-- **Every run of the scopes keeps them**, through any calls and resets. -/
theorem scopes_kept {connection epoch worldRevision policy : ℕ} {limits : ScopeLimits}
    {server : ServerScopes P} (hnew : new connection epoch worldRevision policy limits = .ok server)
    (ops : List (Operation P)) : (run step (start server) ops).Kept limits := by
  obtain ⟨hepoch, -, hrecords, hnext⟩ := new_ok hnew
  obtain ⟨hwithin, hlimits⟩ := new_within hnew
  have hrun :=
    run_invariant (I := fun history : History P => history.Traced ∧ history.server.limits = limits)
    (fun history op h => ⟨h.1.step op, (step_limits h.1 op).trans h.2⟩)
    ⟨traced_start hepoch hwithin hnext hrecords, hlimits⟩ ops
  rw [← hrun.2]
  exact hrun.1.kept

/-- An entity enters, is decoded, changes its representation, leaves and is offered again; the offer
of another finds no room for one more transition. -/
theorem scopes_kept_two_scopes :
    let limits : ScopeLimits := ⟨4, 1, 64, 16, 2⟩
    let grants (revision version : ℕ) : EligibleSet :=
      ⟨9, 1, 1, 10, fun _ => some ⟨⟨1, revision, 1, true⟩, version⟩⟩
    let ops : List (Operation (List UInt8)) :=
      [.call (.offer (grants 1 1) ⟨7, 1⟩ true fun _ => [1, 2, 3]),
        .call (.transmitPending ⟨7, 1⟩ fun _ => true),
        .call (.acknowledge ⟨⟨1, ⟨7, 1⟩, 1, 1⟩, 1, 1, 1⟩),
        .call (.offer (grants 2 2) ⟨7, 1⟩ true fun _ => [4, 5]),
        .call (.offer (grants 1 1) ⟨8, 1⟩ true fun _ => [6]), .call (.exit ⟨7, 1⟩),
        .call (.offer (grants 2 2) ⟨7, 1⟩ true fun _ => [4, 5])]
    ∃ server, new 9 1 1 1 limits = .ok server ∧
      (run step (start server) ops).opened = [⟨1, ⟨7, 1⟩, 1, 1⟩, ⟨1, ⟨7, 1⟩, 2, 2⟩,
        ⟨1, ⟨7, 1⟩, 3, 2⟩] ∧
      (run step (start server) ops).Kept limits := by
  intro limits grants ops
  exact ⟨_, rfl, by decide +kernel, @scopes_kept (List UInt8) _ _ 9 1 1 1 limits _ rfl ops⟩

end History
end ServerScopes
end Net
