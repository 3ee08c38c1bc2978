import Discordium.Net.Replication.Session

/-!
# Net — Replication — Agreement

A server that holds a decode proof of its current state of an entity knows what the client displays:
the proof came from the client, the client never goes back behind a state it has reached, and
nothing newer is on the wire.
-/

namespace Net.Session
open Lib

variable {P : Type} {entity : EntityId} {session : Session P}

/-- A decode proof is a proof of the desired state of a live record. -/
theorem decodedCurrent_cases {server : ServerScopes P} {receipt : StateReceipt}
    (h : server.decodedCurrent entity = some receipt) :
    ∃ r state, server.records[entity.index]? = some r ∧ r.identity.entity = entity ∧
      r.desired = some state ∧ r.decoded = some state.receipt := by
  obtain ⟨r, hr, hreceipt⟩ := Option.bind_eq_some_iff.mp h
  obtain ⟨hlookup, hentity⟩ := ServerScopes.record_eq_some.mp hr
  obtain ⟨hmap, hdecoded⟩ := Option.filter_eq_some_iff.mp hreceipt
  obtain ⟨state, hstate, rfl⟩ := Option.map_eq_some_iff.mp hmap
  exact ⟨r, state, hlookup, hentity, hstate, by simpa using hdecoded⟩

/-- A dormant record is one with a decode proof. -/
theorem Consistent.decoded_of_dormantKnown (h : session.Consistent)
    (hphase : session.feed.server.phase entity = some .dormantKnown) :
    ∃ receipt, session.feed.server.decodedCurrent entity = some receipt := by
  obtain ⟨r, hr, hknown⟩ := Option.map_eq_some_iff.mp hphase
  obtain ⟨hlookup, -⟩ := ServerScopes.record_eq_some.mp hr
  obtain ⟨state, hdesired, hdecoded⟩ := h.known _ r hlookup hknown
  exact ⟨state.receipt, by simp [ServerScopes.decodedCurrent, hr, hdesired, hdecoded,
    Option.filter]⟩

/-- The client has reached the state of a decode proof. -/
theorem Consistent.reached_desired (h : session.Consistent) {i : ℕ}
    {r : Delivery P} {state : FullState P} (hr : session.feed.server.records[i]? = some r)
    (hdesired : r.desired = some state) (hdecoded : r.decoded = some state.receipt) :
    session.client.Reached (.full state) := by
  obtain ⟨m, hm, hack, hreached⟩ := h.acks _ (h.decoded i r hr _ hdecoded)
  have hwf := h.ordered.wf.record i r hr
  cases m with
  | full f =>
    have hreceipt : f.receipt = state.receipt := Ack.state.inj hack
    have hscope : f.scope = state.scope := congrArg StateReceipt.scope hreceipt
    -- the acknowledged state and the desired one are of one scope and one snapshot
    have hindex : f.scope.entity.index = i := by
      rw [hscope, (hwf.desired state hdesired).1]
      exact hwf.index
    obtain ⟨r', hr', hbehind⟩ := h.ordered.passed _ hm
    have hr' : session.feed.server.records[i]? = some r' := hindex ▸ hr'
    obtain rfl := Option.some.inj (hr.symm.trans hr')
    rw [hwf.latest_live hdesired] at hbehind
    have hsame := hbehind.2.same f state rfl rfl hscope (congrArg StateReceipt.snapshot hreceipt)
    exact hsame ▸ hreached
  | exit e => cases hack
  | destroy d => cases hack

/-- **Scope delivery agreement.**  In every state of every run, an entity with a decode proof of its
current state, or one that is dormant, is displayed by the client exactly as the server desires
it. -/
theorem scope_delivery_agreement [DecidableEq P] [Payload P]
    {connection epoch worldRevision policy : ℕ} {limits limits' : ScopeLimits}
    {server : ServerScopes P} {client : ClientScopes P}
    (hserver : ServerScopes.new connection epoch worldRevision policy limits = .ok server)
    (hclient : ClientScopes.new epoch limits' = .ok client) (actions : List (Action P)) :
    let session := run step (start server client) actions
    ∀ entity : EntityId,
      (session.feed.server.decodedCurrent entity).isSome ∨
        session.feed.server.phase entity = some .dormantKnown →
      ∃ state, session.feed.server.state entity = some state ∧
        session.client.state entity = some state := by
  intro session entity hproof
  have h : session.Consistent :=
    run_invariant (fun _ a hs => hs.step a) (start_consistent hserver hclient) actions
  have hsome : ∃ receipt, session.feed.server.decodedCurrent entity = some receipt := by
    rcases hproof with hsome | hphase
    · exact Option.isSome_iff_exists.mp hsome
    · exact h.decoded_of_dormantKnown hphase
  obtain ⟨receipt, hreceipt⟩ := hsome
  obtain ⟨r, state, hr, hentity, hdesired, hdecoded⟩ := decodedCurrent_cases hreceipt
  have hwf := h.ordered.wf.record _ r hr
  have hlatest := @Delivery.WellFormed.latest_live _ _ _ _ _ hwf _ hdesired
  have hreached := h.reached_desired hr hdesired hdecoded
  rw [← hlatest] at hreached
  have hshown := h.replica_of_reached hr hreached
  have hscope : state.scope.entity = entity := by
    rw [(hwf.desired state hdesired).1, hentity]
  have hlive : r.phase.isGone = false := by
    by_contra hgone
    simp [hwf.live.mpr (by simpa using hgone)] at hdesired
  refine ⟨state, ?_, ?_⟩
  · simp [ServerScopes.state, ServerScopes.record_eq_some.mpr ⟨hr, hentity⟩, hlive, hdesired]
  · simp [ClientScopes.state, hshown, hlatest, Message.replica, Option.filter, hscope]

/-- An entity that was offered, delivered, acknowledged and then offered anew as dormant. -/
theorem scope_delivery_agreement_dormant :
    let limits : ScopeLimits := ⟨4, 4, 64, 16, 2⟩
    let entity : EntityId := ⟨7, 1⟩
    let grants : EligibleSet := ⟨9, 1, 1, 10, fun _ => some ⟨⟨1, 1, 1, true⟩, 1⟩⟩
    let offer (dormant : Bool) : Action (List UInt8) :=
      .serve (.offer grants entity dormant fun _ => [1, 2, 3])
    let actions : List (Action (List UInt8)) :=
      [offer false, .serve (.transmitPending entity fun _ => true), .deliver 0 fun _ => true,
        .acknowledge 0, offer true]
    ∃ server client, ServerScopes.new 9 1 1 1 limits = .ok server ∧
      ClientScopes.new 1 limits = .ok client ∧
      let session := run step (start server client) actions
      session.feed.server.phase entity = some .dormantKnown ∧
      ∃ state, session.feed.server.state entity = some state ∧
        session.client.state entity = some state := by
  intro limits entity grants offer actions
  refine ⟨_, _, rfl, rfl, by decide, ?_⟩
  exact @scope_delivery_agreement (List UInt8) _ _ 9 1 1 1 limits limits _ _ rfl rfl actions entity
    (.inr (by decide))

end Net.Session
