import Discordium.Net.Replication.Messages
import Discordium.Net.Replication.Server

/-!
# Net — Replication — Progress

What a call does to the record of one index.  Every record stands for one message,
`Delivery.latest`: the destruction of a destroyed entity, the desired state of a live one, the exit
of any other.  `RecordStep` says what a call can do to a record; `call_stepped` says that every call
of the server makes such a step on every record.  Everything a server emits is the latest message of
a record, and the latest messages of an index only grow.
-/

namespace Net
open Lib
open Std (ExtTreeMap)

variable {P : Type}

/-- The message a record stands for. -/
def Delivery.latest (epoch : ℕ) (r : Delivery P) : Message P :=
  if r.destroyed then .destroy ⟨epoch, r.identity.entity⟩
  else r.desired.elim (.exit ⟨r.identity⟩) .full

/-- The invariant of a record under an index: its identity is well-formed, it has a desired state
exactly while it is live, and that state is of its scope and older than the next snapshot. -/
structure Delivery.WellFormed (epoch next index : ℕ) (r : Delivery P) : Prop where
  scope : validateScope r.identity epoch = none
  index : r.identity.entity.index = index
  live : r.desired = none ↔ r.phase.isGone = true
  destroyed : r.destroyed = true → r.phase.isGone = true
  desired : ∀ state, r.desired = some state → state.scope = r.identity ∧
    state.baselineGeneration = state.snapshot ∧ state.snapshot ≠ 0 ∧ state.version ≠ 0 ∧
      state.snapshot < next

namespace Delivery

@[simp] theorem refreshPhase_isGone (r : Delivery P) : r.refreshPhase.phase.isGone = false := by
  simp only [refreshPhase]
  split_ifs <;> rfl

section Latest
variable {epoch next index : ℕ} {r : Delivery P}

theorem WellFormed.latest_live (h : r.WellFormed epoch next index) {state : FullState P}
    (hs : r.desired = some state) : r.latest epoch = .full state := by
  have hd : r.destroyed = false := by
    by_contra hd
    have := h.live.mpr (h.destroyed (by simpa using hd))
    simp [this] at hs
  simp [latest, hd, hs]

theorem WellFormed.latest_gone (h : r.WellFormed epoch next index) (hg : r.phase.isGone = true)
    (hd : r.destroyed = false) : r.latest epoch = .exit ⟨r.identity⟩ := by
  simp [latest, hd, h.live.mpr hg]

theorem latest_destroyed (hd : r.destroyed = true) :
    r.latest epoch = .destroy ⟨epoch, r.identity.entity⟩ := by
  simp [latest, hd]

theorem latest_index (h : r.WellFormed epoch next index) : (r.latest epoch).index = index := by
  cases hd : r.destroyed with
  | true => rw [latest_destroyed hd]; exact h.index
  | false =>
    cases hs : r.desired with
    | none => rw [h.latest_gone (h.live.mp hs) hd]; exact h.index
    | some state =>
      rw [h.latest_live hs]
      exact (congrArg (·.entity.index) (h.desired state hs).1).trans h.index

theorem latest_valid (h : r.WellFormed epoch next index) : (r.latest epoch).Valid epoch := by
  cases hd : r.destroyed with
  | true =>
    rw [latest_destroyed hd]
    exact ⟨rfl, (validateScope_eq_none.mp h.scope).2.2.1⟩
  | false =>
    cases hs : r.desired with
    | none => rw [h.latest_gone (h.live.mp hs) hd]; exact h.scope
    | some state =>
      rw [h.latest_live hs]
      obtain ⟨hscope, hbase, hsnap, hversion, -⟩ := h.desired state hs
      simp [Message.Valid, FullState.validateIdentity, hscope, h.scope, hbase, hsnap, hversion]

end Latest
end Delivery

namespace ServerScopes

/-- Every record of the server is well-formed. -/
structure WellFormed (server : ServerScopes P) : Prop where
  next : server.nextSnapshot ≠ 0
  record : ∀ (i : ℕ) (r : Delivery P), server.records[i]? = some r →
    r.WellFormed server.epoch server.nextSnapshot i

inductive Call (P : Type) where
  | advanceBarrier (worldRevision policy : ℕ)
  | offer (eligible : EligibleSet) (entity : EntityId) (dormant : Bool)
      (project : RepresentationGrant → P)
  | markSent (receipt : StateReceipt)
  | transmitPending (entity : EntityId) (send : FullState P → Bool)
  | acknowledge (receipt : StateReceipt)
  | exit (entity : EntityId)
  | markExitSent (exit : ScopeExit)
  | acknowledgeExit (exit : ScopeExit)
  | destroy (entity : EntityId)
  | markDestroySent (destroy : Destroy)
  | acknowledgeDestroy (destroy : Destroy)
  /-- Read the pending exits and destructions. -/
  | report

namespace Call

/-- The call that acknowledges an answer of the client. -/
def ofAck : Ack → Call P
  | .state receipt => .acknowledge receipt
  | .exit e => .acknowledgeExit e
  | .destroy d => .acknowledgeDestroy d

/-- The call that marks a message as sent. -/
def marking : Message P → Call P
  | .full state => .markSent state.receipt
  | .exit e => .markExitSent e
  | .destroy d => .markDestroySent d

end Call

section Calls
variable [DecidableEq P] [Payload P]

/-- A call and the messages it puts on the wire.  A state goes out when it is handed to the callback
of `transmitPending` or marked as sent, whatever the callback answers; a control goes out when it is
returned, reported or marked as sent. -/
def call (server : ServerScopes P) : Call P → ServerScopes P × List (Message P)
  | .advanceBarrier worldRevision policy => ((server.advanceBarrier worldRevision policy).1, [])
  | .offer eligible entity dormant project => ((server.offer eligible entity dormant project).1, [])
  | .markSent receipt =>
    match server.markSent receipt with
    | (server', .ok ()) => (server', (server.state receipt.scope.entity).toList.map .full)
    | (server', .error _) => (server', [])
  | .transmitPending entity send =>
    ((server.transmitPending entity send).1, (server.pending entity).toList.map .full)
  | .acknowledge receipt => ((server.acknowledge receipt).1, [])
  | .exit entity =>
    match server.exit entity with
    | (server', .ok e) => (server', [.exit e])
    | (server', .error _) => (server', [])
  | .markExitSent e =>
    match server.markExitSent e with
    | (server', .ok ()) => (server', [.exit e])
    | (server', .error _) => (server', [])
  | .acknowledgeExit e => ((server.acknowledgeExit e).1, [])
  | .destroy entity =>
    match server.destroy entity with
    | (server', .ok d) => (server', [.destroy d])
    | (server', .error _) => (server', [])
  | .markDestroySent d =>
    match server.markDestroySent d with
    | (server', .ok ()) => (server', [.destroy d])
    | (server', .error _) => (server', [])
  | .acknowledgeDestroy d => ((server.acknowledgeDestroy d).1, [])
  | .report => (server, server.pendingExits.map .exit ++ server.pendingDestroys.map .destroy)

end Calls

/-! ### What a call does to a record -/

/-- A state that `offer_projected` may publish next under an index. -/
structure Fresh (server : ServerScopes P) (index : ℕ) (state : FullState P) : Prop where
  scope : validateScope state.scope server.epoch = none
  index : state.scope.entity.index = index
  snapshot : state.snapshot = server.nextSnapshot
  baseline : state.baselineGeneration = server.nextSnapshot
  version : state.version ≠ 0

/-- What a call can do to the record of an index. -/
inductive RecordStep (s s' : ServerScopes P) (c : Call P) (index : ℕ) :
    Option (Delivery P) → Option (Delivery P) → Prop where
  | same (r : Option (Delivery P)) : RecordStep s s' c index r r
  /-- An offer opens a scope past the old one. -/
  | entered (old : Option (Delivery P)) (state : FullState P) (dormant : Bool)
      (hstate : s.Fresh index state) (hnext : s'.nextSnapshot = s.nextSnapshot + 1)
      (hold : ∀ r, old = some r → r.identity.scope < state.scope.scope ∧
        (r.identity.entity.generation < state.scope.entity.generation ∨
          r.identity.entity.generation = state.scope.entity.generation ∧ r.destroyed = false)) :
      RecordStep s s' c index old
        (some ⟨state.scope, some state, ∅, none, dormant, .entering, false, false⟩)
  /-- An offer publishes a newer state of the scope. -/
  | refreshed (r : Delivery P) (previous state : FullState P) (dormant : Bool)
      (hlive : r.phase.isGone = false) (hprevious : r.desired = some previous)
      (hstate : s.Fresh index state) (hnext : s'.nextSnapshot = s.nextSnapshot + 1)
      (hscope : state.scope = r.identity) (hversion : previous.version < state.version)
      (htick : previous.endTick ≤ state.endTick) :
      RecordStep s s' c index (some r)
        (some (Delivery.refreshPhase { r with desired := some state, dormant }))
  /-- An offer of the same state, which may change the dormancy. -/
  | requalified (r : Delivery P) (dormant : Bool) (hlive : r.phase.isGone = false) :
      RecordStep s s' c index (some r) (some (Delivery.refreshPhase { r with dormant }))
  | proven (r : Delivery P) (sent : ExtTreeMap ℕ StateReceipt) :
      RecordStep s s' c index (some r) (some { r with sent })
  | decoded (r : Delivery P) (receipt : StateReceipt) (sent : ExtTreeMap ℕ StateReceipt)
      (hcall : c = .acknowledge receipt) (hlive : r.phase.isGone = false)
      (hscope : receipt.scope = r.identity) :
      RecordStep s s' c index (some r)
        (some (Delivery.refreshPhase { r with decoded := some receipt, sent }))
  /-- The scope is left, and perhaps the entity destroyed. -/
  | left (r : Delivery P) (destroyed : Bool) (hlive : r.phase.isGone = false) :
      RecordStep s s' c index (some r)
        (some { r.withdraw with phase := .leaving, exitSent := false, destroyed })
  | revoked (r : Delivery P) (worldRevision policy : ℕ)
      (hcall : c = .advanceBarrier worldRevision policy) (hpolicy : policy ≠ s.policy) :
      RecordStep s s' c index (some r) (some (revoke r))
  | marked (r : Delivery P) (hphase : r.phase = .leaving)
      (hcall : c = .marking (r.latest s.epoch)) :
      RecordStep s s' c index (some r) (some { r with exitSent := true })
  | forgotten (r : Delivery P) (hgone : r.phase.isGone = true)
      (hcall : c = .ofAck (r.latest s.epoch).ack) :
      RecordStep s s' c index (some r) (some { r with phase := .forgotten })
  | reset (r : Delivery P) (hreset : s'.resetRequired = true) :
      RecordStep s s' c index (some r) (some { r.withdraw with phase := .forgotten })

/-- What a call does to the server. -/
structure Stepped (s s' : ServerScopes P) (c : Call P) : Prop where
  epoch : s'.epoch = s.epoch
  next : s.nextSnapshot ≤ s'.nextSnapshot
  reset : s.resetRequired = true → s'.resetRequired = true
  record : ∀ i, RecordStep s s' c i s.records[i]? s'.records[i]?

theorem Stepped.refl (s : ServerScopes P) (c : Call P) : Stepped s s c :=
  ⟨rfl, le_rfl, id, fun _ => .same _⟩

variable {s : ServerScopes P}

/-- A call that replaces one record. -/
theorem Stepped.of_put {s' : ServerScopes P} {c : Call P} {index : ℕ} {r : Delivery P}
    (hepoch : s'.epoch = s.epoch) (hnext : s.nextSnapshot ≤ s'.nextSnapshot)
    (hreset : s'.resetRequired = s.resetRequired) (hrecords : s'.records = s.records.insert index r)
    (hstep : RecordStep s s' c index s.records[index]? (some r)) : Stepped s s' c where
  epoch := hepoch
  next := hnext
  reset h := hreset.trans h
  record i := by
    rw [hrecords, lookup_insert]
    by_cases hi : index = i
    · subst hi
      rwa [if_pos rfl]
    · rw [if_neg hi]
      exact .same _

theorem record_eq_some {server : ServerScopes P} {entity : EntityId} {r : Delivery P} :
    server.record entity = some r ↔
      server.records[entity.index]? = some r ∧ r.identity.entity = entity := by
  simp [record, Option.filter_eq_some_iff]

theorem requireReset_stepped (s : ServerScopes P) (c : Call P) : Stepped s s.requireReset c where
  epoch := rfl
  next := le_rfl
  reset _ := rfl
  record i := by
    simp only [requireReset, ExtTreeMap.getElem?_map]
    cases s.records[i]? with
    | none => exact .same _
    | some r => exact .reset r rfl

theorem advanceBarrier_stepped (s : ServerScopes P) (worldRevision policy : ℕ) :
    Stepped s (s.advanceBarrier worldRevision policy).1 (.advanceBarrier worldRevision policy) := by
  simp only [advanceBarrier]
  split_ifs with h₁ h₂ h₃ h₄
  · exact .refl s _
  · exact .refl s _
  · exact requireReset_stepped s _
  · refine ⟨rfl, le_rfl, id, fun i => ?_⟩
    simp only [ExtTreeMap.getElem?_map]
    cases s.records[i]? with
    | none => exact .same _
    | some r => exact .revoked r worldRevision policy rfl h₃
  · exact ⟨rfl, le_rfl, id, fun i => .same _⟩

section Offers
variable [Payload P] {s : ServerScopes P} {entity : EntityId} {representation version : ℕ}

/-- A publication that opens a scope. -/
theorem publish_entered (c : Call P) (endTick : ℕ) (dormant : Bool) (payload : P)
    (hconnection : s.epoch ≠ 0)
    (hid : ¬(entity.generation = 0 ∨ representation = 0 ∨ version = 0))
    (hold : ∀ r, s.records[entity.index]? = some r →
      r.identity.entity.generation < entity.generation ∨
        r.identity.entity.generation = entity.generation ∧ r.destroyed = false) :
    Stepped s (s.publish s.records[entity.index]? true entity representation version endTick
      dormant payload).1 c := by
  simp only [publish, if_true]
  split
  · exact .refl s c
  rename_i bytes hbytes
  by_cases hsize : s.limits.payloadBytes < Payload.retainedBytes payload ∨
      s.limits.retainedPayloadBytes < bytes
  · rw [if_pos hsize]
    exact .refl s c
  rw [if_neg hsize]
  split
  · rename_i scope next hscope hnext
    obtain ⟨rfl, -⟩ := checkedNext_eq_some.mp hnext
    -- the first scope of an index is 1, the next one follows the old one
    have hpos : scope ≠ 0 ∧ ∀ r, s.records[entity.index]? = some r → r.identity.scope < scope := by
      cases hr : s.records[entity.index]? with
      | none =>
        simp only [hr, Option.elim_none, Option.some.injEq] at hscope
        exact ⟨by omega, by simp⟩
      | some r =>
        simp only [hr, Option.elim_some, checkedNext_eq_some] at hscope
        exact ⟨by omega, by rintro _ ⟨rfl⟩; omega⟩
    refine .of_put rfl (Nat.le_succ _) rfl rfl ?_
    refine .entered _ ⟨⟨s.epoch, entity, scope, representation⟩, s.nextSnapshot, s.nextSnapshot,
      version, endTick, payload⟩ dormant ⟨?_, rfl, rfl, rfl, ?_⟩ rfl ?_
    · exact validateScope_eq_none.mpr
        ⟨rfl, hconnection, fun h => hid (.inl h), hpos.1, fun h => hid (.inr (.inl h))⟩
    · exact fun h => hid (.inr (.inr h))
    · exact fun r hr => ⟨hpos.2 r hr, hold r hr⟩
  · exact .refl s c

/-- A publication of a newer state of the scope of a record. -/
theorem publish_refreshed (c : Call P) {endTick : ℕ} (dormant : Bool) (payload : P) {r : Delivery P}
    {previous : FullState P} (hwf : s.WellFormed) (hr : s.records[entity.index]? = some r)
    (hlive : r.phase.isGone = false) (hprevious : r.desired = some previous)
    (hentity : r.identity.entity = entity)
    (hrepresentation : r.identity.representation = representation)
    (hversion : previous.version < version) (htick : previous.endTick ≤ endTick) :
    Stepped s (s.publish (some r) false entity representation version endTick dormant payload).1
      c := by
  simp only [publish, Bool.false_eq_true, if_false, Option.elim_some, Option.map_some]
  split
  · exact .refl s c
  rename_i bytes hbytes
  by_cases hsize : s.limits.payloadBytes < Payload.retainedBytes payload ∨
      s.limits.retainedPayloadBytes < bytes
  · rw [if_pos hsize]
    exact .refl s c
  rw [if_neg hsize]
  split
  · rename_i scope next hscope hnext
    obtain ⟨rfl, -⟩ := checkedNext_eq_some.mp hnext
    have hscope : r.identity.scope = scope := Option.some.inj hscope
    have hvalid := (hwf.record _ r hr).scope
    have hid : (⟨s.epoch, entity, scope, representation⟩ : ScopeIdentity) = r.identity := by
      have hconnection := (validateScope_eq_none.mp hvalid).1
      cases hi : r.identity
      simp_all
    refine .of_put rfl (Nat.le_succ _) rfl rfl ?_
    rw [hr]
    exact .refreshed r previous _ dormant hlive hprevious
      ⟨hid ▸ hvalid, rfl, rfl, rfl, by dsimp only; omega⟩ rfl hid hversion htick
  · exact .refl s c

theorem offer_stepped [DecidableEq P] (hwf : s.WellFormed)
    (hconnection : s.epoch ≠ 0) (eligible : EligibleSet) (entity : EntityId) (dormant : Bool)
    (project : RepresentationGrant → P) :
    Stepped s (s.offer eligible entity dormant project).1
      (.offer eligible entity dormant project) := by
  simp only [offer]
  split_ifs with h₁ h₂
  · exact .refl s _
  · exact .refl s _
  split
  · exact .refl s _
  rename_i entry hentry
  simp only [offerProjected]
  split_ifs with h₃ h₄ h₅ h₆ h₇
  · exact .refl s _
  · exact .refl s _
  · exact .refl s _
  · exact .refl s _
  · refine publish_entered _ _ _ _ hconnection h₃ fun r hr => ?_
    simp only [hr, Option.any_some, Bool.or_eq_true, Bool.and_eq_true, decide_eq_true_eq, not_or,
      not_and, Bool.not_eq_true] at h₅
    rcases (Nat.not_lt.mp h₅.1).lt_or_eq with hlt | heq
    · exact .inl hlt
    · exact .inr ⟨heq, h₅.2 heq.symm⟩
  · split
    · rename_i r previous hr hprevious
      simp only [hr, opensScope, Option.all_some, Bool.or_eq_true, decide_eq_true_eq, not_or,
        not_not, Bool.not_eq_true] at h₇
      obtain ⟨⟨hentity, hrepresentation⟩, hlive⟩ := h₇
      simp only [hr, Option.bind_some] at hprevious
      split_ifs with h₈ h₉ h₁₀
      · exact .refl s _
      · exact .refl s _
      · refine .of_put rfl le_rfl rfl rfl ?_
        rw [hr]
        exact .requalified r dormant hlive
      · rw [hr]
        exact publish_refreshed _ dormant _ hwf hr hlive hprevious hentity hrepresentation
          (by omega) (by omega)
    · exact .refl s _

end Offers

/-! ### Proofs of delivery -/

theorem markSent_stepped (s : ServerScopes P) (receipt : StateReceipt) (c : Call P) :
    Stepped s (s.markSent receipt).1 c := by
  simp only [markSent]
  split
  · exact .refl s c
  rename_i r hr
  by_cases hstale : r.identity ≠ receipt.scope ∨ r.phase.isGone = true ∨
      r.desired.map (·.receipt) ≠ some receipt
  · rw [if_pos hstale]
    exact .refl s c
  · rw [if_neg hstale]
    refine .of_put rfl le_rfl rfl rfl ?_
    rw [hr]
    exact .proven r _

theorem transmitPending_stepped (s : ServerScopes P) (entity : EntityId)
    (send : FullState P → Bool) (c : Call P) : Stepped s (s.transmitPending entity send).1 c := by
  simp only [transmitPending]
  split_ifs with h₁
  · exact .refl s c
  split
  · exact .refl s c
  split_ifs with h₂
  · exact .refl s c
  rename_i state hstate
  have hsent := markSent_stepped s state.receipt c
  cases hm : s.markSent state.receipt with
  | mk s' answer => cases answer <;> simpa [hm] using hsent

theorem acknowledge_stepped (s : ServerScopes P) (receipt : StateReceipt) :
    Stepped s (s.acknowledge receipt).1 (.acknowledge receipt) := by
  simp only [acknowledge]
  split
  · exact .refl s _
  rename_i r hr
  split_ifs with hknown
  · exact .refl s _
  simp only [validateAcknowledgment] at hr
  split at hr
  · cases hr
  rename_i r' hlookup
  split_ifs at hr with h₁
  all_goals obtain rfl := Except.ok.inj hr
  · contradiction
  · simp only [not_or, not_not, Bool.not_eq_true] at h₁
    refine .of_put rfl le_rfl rfl rfl ?_
    rw [hlookup]
    exact .decoded r' receipt _ rfl h₁.2 h₁.1

/-! ### Exits and destructions -/

/-- What `exit` answers and does. -/
theorem exit_cases [Payload P] (s : ServerScopes P) (entity : EntityId) :
    (∃ error, s.exit entity = (s, .error error)) ∨
    (∃ error, s.exit entity = (s.requireReset, .error error)) ∨
    ∃ r, s.records[entity.index]? = some r ∧ r.identity.entity = entity ∧ r.destroyed = false ∧
      ((r.phase.isGone = true ∧ s.exit entity = (s, .ok ⟨r.identity⟩)) ∨
        (r.phase.isGone = false ∧ ∃ bytes, s.exit entity =
          ({ s.put entity.index
              { r.withdraw with phase := .leaving, exitSent := false } with bytes },
              .ok ⟨r.identity⟩))) := by
  simp only [exit]
  split_ifs with h₁
  · exact .inl ⟨_, rfl⟩
  cases hr : s.record entity with
  | none => exact .inl ⟨_, rfl⟩
  | some r =>
    obtain ⟨hlookup, hentity⟩ := record_eq_some.mp hr
    dsimp only
    split_ifs with h₂ h₃ h₄
    · exact .inl ⟨_, rfl⟩
    · exact .inr (.inl ⟨_, rfl⟩)
    · exact .inr (.inr ⟨r, hlookup, hentity, by simpa using h₂, .inl ⟨h₄, rfl⟩⟩)
    · exact .inr (.inr ⟨r, hlookup, hentity, by simpa using h₂, .inr ⟨by simpa using h₄, _, rfl⟩⟩)

theorem exit_stepped [Payload P] (s : ServerScopes P) (entity : EntityId) (c : Call P) :
    Stepped s (s.exit entity).1 c := by
  rcases exit_cases s entity with
    ⟨_, h⟩ | ⟨_, h⟩ | ⟨r, hlookup, -, -, ⟨-, h⟩ | ⟨hlive, bytes, h⟩⟩ <;> rw [h]
  · exact .refl s c
  · exact requireReset_stepped s c
  · exact .refl s c
  · refine .of_put rfl le_rfl rfl rfl ?_
    rw [hlookup]
    exact .left r r.destroyed hlive

/-- What `destroy` answers and does. -/
theorem destroy_cases [Payload P] (s : ServerScopes P) (entity : EntityId) :
    (∃ error, s.destroy entity = (s, .error error)) ∨
    (∃ error, s.destroy entity = (s.requireReset, .error error)) ∨
    ∃ r, s.records[entity.index]? = some r ∧ r.identity.entity = entity ∧
      ((r.destroyed = true ∧ s.destroy entity = (s, .ok ⟨s.epoch, entity⟩)) ∨
        (r.phase.isGone = false ∧ ∃ bytes, s.destroy entity =
          ({ s.put entity.index
              { r.withdraw with phase := .leaving, exitSent := false, destroyed := true } with
            bytes }, .ok ⟨s.epoch, entity⟩))) := by
  simp only [destroy]
  split_ifs with h₁
  · exact .inl ⟨_, rfl⟩
  cases hr : s.record entity with
  | none => exact .inl ⟨_, rfl⟩
  | some r =>
    obtain ⟨hlookup, hentity⟩ := record_eq_some.mp hr
    dsimp only
    split_ifs with h₂ h₃ h₄
    · exact .inr (.inr ⟨r, hlookup, hentity, .inl ⟨h₂, rfl⟩⟩)
    · exact .inl ⟨_, rfl⟩
    · exact .inl ⟨_, rfl⟩
    · rcases exit_cases s entity with
        ⟨e, h⟩ | ⟨e, h⟩ | ⟨r', hlookup', -, -, ⟨hgone, -⟩ | ⟨hlive, bytes, h⟩⟩
      · rw [h]
        exact .inl ⟨e, rfl⟩
      · rw [h]
        exact .inr (.inl ⟨e, rfl⟩)
      · rw [hlookup] at hlookup'
        cases hlookup'
        exact absurd hgone h₄
      · rw [hlookup] at hlookup'
        cases hlookup'
        refine .inr (.inr ⟨r, hlookup, hentity, .inr ⟨hlive, bytes, ?_⟩⟩)
        rw [h]
        simp only [put, modify_insert]

theorem destroy_stepped [Payload P] (s : ServerScopes P) (entity : EntityId) (c : Call P) :
    Stepped s (s.destroy entity).1 c := by
  rcases destroy_cases s entity with
    ⟨_, h⟩ | ⟨_, h⟩ | ⟨r, hlookup, -, ⟨-, h⟩ | ⟨hlive, bytes, h⟩⟩ <;> rw [h]
  · exact .refl s c
  · exact requireReset_stepped s c
  · exact .refl s c
  · refine .of_put rfl le_rfl rfl rfl ?_
    rw [hlookup]
    exact .left r true hlive

/-- What marking an exit as sent answers and does. -/
theorem markExitSent_cases (hwf : s.WellFormed) (e : ScopeExit) :
    (∃ error, s.markExitSent e = (s, .error error)) ∨
    ∃ r, s.records[e.scope.entity.index]? = some r ∧ r.phase = .leaving ∧
      r.latest s.epoch = .exit e ∧
      s.markExitSent e = (s.put e.scope.entity.index { r with exitSent := true }, .ok ()) := by
  simp only [markExitSent]
  cases hr : s.records[e.scope.entity.index]? with
  | none => exact .inl ⟨_, rfl⟩
  | some r =>
    dsimp only
    split_ifs with h
    · exact .inl ⟨_, rfl⟩
    · simp only [not_or, not_not, Bool.not_eq_true] at h
      obtain ⟨hid, hd, hphase⟩ := h
      refine .inr ⟨r, rfl, hphase, ?_, rfl⟩
      rw [(hwf.record _ r hr).latest_gone (by rw [hphase]; rfl) hd, hid]

/-- What marking a destruction as sent answers and does. -/
theorem markDestroySent_cases (s : ServerScopes P) (d : Destroy) :
    (∃ error, s.markDestroySent d = (s, .error error)) ∨
    ∃ r, s.records[d.entity.index]? = some r ∧ r.phase = .leaving ∧ r.latest s.epoch = .destroy d ∧
      s.markDestroySent d = (s.put d.entity.index { r with exitSent := true }, .ok ()) := by
  simp only [markDestroySent]
  split_ifs with h₁
  · exact .inl ⟨_, rfl⟩
  cases hr : s.records[d.entity.index]? with
  | none => exact .inl ⟨_, rfl⟩
  | some r =>
    dsimp only
    split_ifs with h
    · exact .inl ⟨_, rfl⟩
    · simp only [not_or, not_not, Bool.not_eq_true, Bool.not_eq_false'] at h h₁
      obtain ⟨hid, hd, hphase⟩ := h
      refine .inr ⟨r, rfl, hphase, ?_, rfl⟩
      rw [Delivery.latest_destroyed hd, hid, ← h₁]

theorem markExitSent_stepped (hwf : s.WellFormed) (e : ScopeExit) :
    Stepped s (s.markExitSent e).1 (.markExitSent e) := by
  rcases markExitSent_cases hwf e with ⟨_, h⟩ | ⟨r, hr, hphase, hlatest, h⟩ <;> rw [h]
  · exact .refl s _
  · refine .of_put rfl le_rfl rfl rfl ?_
    rw [hr]
    exact .marked r hphase (by rw [hlatest]; rfl)

theorem markDestroySent_stepped (s : ServerScopes P) (d : Destroy) :
    Stepped s (s.markDestroySent d).1 (.markDestroySent d) := by
  rcases markDestroySent_cases s d with ⟨_, h⟩ | ⟨r, hr, hphase, hlatest, h⟩ <;> rw [h]
  · exact .refl s _
  · refine .of_put rfl le_rfl rfl rfl ?_
    rw [hr]
    exact .marked r hphase (by rw [hlatest]; rfl)

theorem acknowledgeExit_stepped (hwf : s.WellFormed) (e : ScopeExit) :
    Stepped s (s.acknowledgeExit e).1 (.acknowledgeExit e) := by
  simp only [acknowledgeExit]
  cases hr : s.records[e.scope.entity.index]? with
  | none => exact .refl s _
  | some r =>
    dsimp only
    split_ifs with h
    · exact .refl s _
    · simp only [not_or, not_not, Bool.not_eq_true, Bool.not_eq_false'] at h
      obtain ⟨hid, hd, -, hgone⟩ := h
      refine .of_put rfl le_rfl rfl rfl ?_
      rw [hr]
      refine .forgotten r hgone ?_
      rw [(hwf.record _ r hr).latest_gone hgone hd, hid]
      rfl

theorem acknowledgeDestroy_stepped (hwf : s.WellFormed) (d : Destroy) :
    Stepped s (s.acknowledgeDestroy d).1 (.acknowledgeDestroy d) := by
  simp only [acknowledgeDestroy]
  split_ifs with h₁
  · exact .refl s _
  cases hr : s.records[d.entity.index]? with
  | none => exact .refl s _
  | some r =>
    dsimp only
    split_ifs with h
    · exact .refl s _
    · simp only [not_or, not_not, Bool.not_eq_true, Bool.not_eq_false'] at h h₁
      obtain ⟨hid, hd, -⟩ := h
      refine .of_put rfl le_rfl rfl rfl ?_
      rw [hr]
      refine .forgotten r ((hwf.record _ r hr).destroyed hd) ?_
      rw [Delivery.latest_destroyed hd, hid, ← h₁]
      rfl

/-! ### Every call -/

section Every
variable [DecidableEq P] [Payload P]

/-- **Every call makes one of the steps on every record.** -/
theorem call_stepped {s : ServerScopes P} (hwf : s.WellFormed) (hepoch : s.epoch ≠ 0) (c : Call P) :
    Stepped s (s.call c).1 c := by
  cases c with
  | advanceBarrier worldRevision policy => exact advanceBarrier_stepped s worldRevision policy
  | offer eligible entity dormant project =>
    exact offer_stepped hwf hepoch eligible entity dormant project
  | markSent receipt =>
    have h := markSent_stepped s receipt (.markSent receipt)
    cases hm : s.markSent receipt with
    | mk s' answer => cases answer <;> simpa [call, hm] using h
  | transmitPending entity send => exact transmitPending_stepped s entity send _
  | acknowledge receipt => exact acknowledge_stepped s receipt
  | exit entity =>
    have h := exit_stepped s entity (.exit entity)
    cases hm : s.exit entity with
    | mk s' answer => cases answer <;> simpa [call, hm] using h
  | markExitSent e =>
    have h := markExitSent_stepped hwf e
    cases hm : s.markExitSent e with
    | mk s' answer => cases answer <;> simpa [call, hm] using h
  | acknowledgeExit e => exact acknowledgeExit_stepped hwf e
  | destroy entity =>
    have h := destroy_stepped s entity (.destroy entity)
    cases hm : s.destroy entity with
    | mk s' answer => cases answer <;> simpa [call, hm] using h
  | markDestroySent d =>
    have h := markDestroySent_stepped s d
    cases hm : s.markDestroySent d with
    | mk s' answer => cases answer <;> simpa [call, hm] using h
  | acknowledgeDestroy d => exact acknowledgeDestroy_stepped hwf d
  | report => exact .refl s _

end Every

end ServerScopes
end Net
