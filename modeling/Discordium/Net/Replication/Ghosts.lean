import Discordium.Net.Replication.Session

/-!
# Net — Replication — Ghosts

Every path that makes a scope non-live has to leave a fence that removes the client's copy.  A
record is forgotten once its control is acknowledged; a policy change, however, forgets a destroyed
record at once and with it a destruction that was never sent.  `ghost_replica` is such a run.  Where
no policy changes while a destruction is unsent, a forgotten record either has been reached by the
client or has its control on the reliable lane, and `no_ghosts` follows.
-/

namespace Net.Session
open Lib

variable {P : Type}

/-- No reset is required, every control marked as sent has been acknowledged, and no exit or
destruction is pending. -/
structure Settled (session : Session P) : Prop where
  reset : session.feed.server.resetRequired = false
  marked : ∀ m ∈ session.marked, m.ack ∈ session.acked
  exits : session.feed.server.pendingExits = []
  destroys : session.feed.server.pendingDestroys = []

/-- The client publishes nothing for an entity whose index the server does not hold or has
forgotten. -/
def NoGhosts (session : Session P) : Prop :=
  ∀ entity : EntityId,
    (∀ r, session.feed.server.records[entity.index]? = some r → r.phase = .forgotten) →
    session.client.state entity = none

theorem not_noGhosts {session : Session P} (entity : EntityId)
    (hphase : session.feed.server.phase entity = some .forgotten)
    (hstate : (session.client.state entity).isSome) : ¬session.NoGhosts := by
  intro h
  obtain ⟨r, hr, hforgotten⟩ := Option.map_eq_some_iff.mp hphase
  obtain ⟨hlookup, -⟩ := ServerScopes.record_eq_some.mp hr
  have hnone := h entity fun r' hr' => by
    rwa [← Option.some.inj (hlookup.symm.trans hr')]
  simp [hnone] at hstate

/-- Another policy revision than the current one is given only when every destruction has been
sent. -/
def Guarded (session : Session P) : Action P → Prop
  | .serve (.advanceBarrier _ policy) =>
    policy = session.feed.server.policy ∨ session.feed.server.unsentDestroys = []
  | _ => True

/-- **A ghost replica.**  An entity is offered, delivered and destroyed; the policy changes before
the destruction is sent.  Nothing is pending, nothing was marked, the record is forgotten, and the
client still publishes the entity. -/
theorem ghost_replica :
    let limits : ScopeLimits := ⟨4, 4, 64, 16, 2⟩
    let entity : EntityId := ⟨7, 1⟩
    let grants : EligibleSet := ⟨9, 1, 1, 10, fun _ => some ⟨⟨1, 1, 1, true⟩, 1⟩⟩
    let actions : List (Action (List UInt8)) :=
      [.serve (.offer grants entity false fun _ => [1, 2, 3]),
        .serve (.transmitPending entity fun _ => true), .deliver 0 fun _ => true,
        .serve (.destroy entity), .serve (.advanceBarrier 1 2)]
    ∃ server client, ServerScopes.new 9 1 1 1 limits = .ok server ∧
      ClientScopes.new 1 limits = .ok client ∧
      let session := run step (start server client) actions
      session.Settled ∧ session.feed.server.phase entity = some .forgotten ∧
        session.client.state entity = some ⟨⟨1, entity, 1, 1⟩, 1, 1, 1, 10, [1, 2, 3]⟩ ∧
        ¬session.NoGhosts := by
  intro limits entity grants actions
  refine ⟨_, _, rfl, rfl, ⟨by decide, by decide, by decide, by decide⟩, by decide, by decide, ?_⟩
  exact not_noGhosts entity (by decide) (by decide)

/-! ### Controls -/

variable {m : Message P} {r : Delivery P} {server : ServerScopes P}

/-- The answer to a control names the control. -/
theorem eq_of_ack {n : Message P} (h : m.ack = n.ack) (hn : n.replica.state = none) : m = n := by
  cases n with
  | full f => cases hn
  | exit e => cases m <;> cases h; rfl
  | destroy d => cases m <;> cases h; rfl

/-- A record that is gone stands for a control. -/
theorem latest_control {epoch next index : ℕ} (h : r.WellFormed epoch next index)
    (hgone : r.phase.isGone = true) : (r.latest epoch).replica.state = none := by
  cases hd : r.destroyed with
  | true => rw [Delivery.latest_destroyed hd]; rfl
  | false => rw [h.latest_gone hgone hd]; rfl

/-- An acknowledged control has been reached. -/
theorem Consistent.reached_of_ack {session : Session P} (h : session.Consistent)
    (hm : m.replica.state = none) (hack : m.ack ∈ session.acks) : session.client.Reached m := by
  obtain ⟨n, -, hn, hreached⟩ := h.acks _ hack
  exact eq_of_ack hn hm ▸ hreached

/-- The call that marks the control of a leaving record puts it on the reliable lane. -/
theorem markedBy_marking [DecidableEq P] [Payload P] (hwf : server.WellFormed) {i : ℕ}
    (hr : server.records[i]? = some r) (hphase : r.phase = .leaving) :
    r.latest server.epoch ∈ markedBy server (.marking (r.latest server.epoch)) := by
  have hrecord := hwf.record i r hr
  have hgone : r.phase.isGone = true := by rw [hphase]; rfl
  obtain rfl := hrecord.index
  cases hd : r.destroyed with
  | true =>
    rw [Delivery.latest_destroyed hd]
    simp [ServerScopes.Call.marking, markedBy, ServerScopes.call,
      ServerScopes.markDestroySent, hr, hd, hphase]
  | false =>
    rw [hrecord.latest_gone hgone hd]
    simp [ServerScopes.Call.marking, markedBy, ServerScopes.call, ServerScopes.markExitSent, hr, hd,
      hphase]

/-- With no unsent destruction, a destroyed record that is leaving has been marked. -/
theorem exitSent_of_unsentDestroys (h : server.unsentDestroys = []) {i : ℕ}
    (hr : server.records[i]? = some r) (hphase : r.phase = .leaving) (hd : r.destroyed = true) :
    r.exitSent = true := by
  by_contra hsent
  have hmem : (⟨server.epoch, r.identity.entity⟩ : Destroy) ∈ server.unsentDestroys := by
    refine List.mem_map.mpr ⟨r, List.mem_filter.mpr ⟨mem_values.mpr ⟨i, hr⟩, ?_⟩, rfl⟩
    simp [hphase, hd, Bool.eq_false_iff.mpr hsent]
  simp [h] at hmem

/-! ### The invariant of guarded runs -/

/-- A control that is flagged as sent is on the reliable lane, and what is forgotten has been
reached or is on that lane. -/
structure Fenced (session : Session P) : Prop where
  consistent : session.Consistent
  sent : ∀ (i : ℕ) (r : Delivery P), session.feed.server.records[i]? = some r →
    r.phase = .leaving → r.exitSent = true → r.latest session.feed.server.epoch ∈ session.marked
  forgotten : session.feed.server.resetRequired = false →
    ∀ (i : ℕ) (r : Delivery P), session.feed.server.records[i]? = some r → r.phase = .forgotten →
      session.client.Reached (r.latest session.feed.server.epoch) ∨
        r.latest session.feed.server.epoch ∈ session.marked

section Steps
variable [DecidableEq P] [Payload P] {session : Session P} {c : ServerScopes.Call P}
  {marked : List (Message P)}

/-- What one record step does to the fences. -/
theorem Fenced.record (h : session.Fenced) {s' : ServerScopes P} {i : ℕ}
    {r' : Delivery P}
    (hstep : ServerScopes.RecordStep session.feed.server s' c i session.feed.server.records[i]?
      (some r'))
    (hack : ∀ ack, c = .ofAck ack → ack ∈ session.acks)
    (hguard : session.Guarded (.serve c))
    (hmarked : ∀ m, m ∈ session.marked ∨ m ∈ markedBy session.feed.server c → m ∈ marked)
    (hreset : session.feed.server.resetRequired = true → s'.resetRequired = true) :
    (r'.phase = .leaving → r'.exitSent = true → r'.latest session.feed.server.epoch ∈ marked) ∧
    (s'.resetRequired = false → r'.phase = .forgotten →
      session.client.Reached (r'.latest session.feed.server.epoch) ∨
        r'.latest session.feed.server.epoch ∈ marked) := by
  have hmono : ∀ m, m ∈ session.marked → m ∈ marked := fun m hm => hmarked m (.inl hm)
  have hset : s'.resetRequired = false → session.feed.server.resetRequired = false := by
    intro hs'
    by_contra hs
    simp [hreset (by simpa using hs)] at hs'
  generalize hold : session.feed.server.records[i]? = old at hstep
  cases hstep with
  | same =>
    exact ⟨fun hp hs => hmono _ (h.sent i r' hold hp hs),
      fun hr hp => (h.forgotten (hset hr) i r' hold hp).imp_right (hmono _)⟩
  | entered => exact ⟨fun hp => (by cases hp), fun _ hp => by cases hp⟩
  | refreshed r | requalified r | decoded r =>
    exact ⟨fun hp => absurd (Delivery.refreshPhase_isGone _) (by rw [hp]; decide),
      fun _ hp => absurd (Delivery.refreshPhase_isGone _) (by rw [hp]; decide)⟩
  | proven r =>
    exact ⟨fun hp hs => hmono _ (h.sent i r hold hp hs),
      fun hr hp => (h.forgotten (hset hr) i r hold hp).imp_right (hmono _)⟩
  | left r => exact ⟨fun _ hs => (by cases hs), fun _ hp => by cases hp⟩
  | revoked r worldRevision policy hcall hpolicy =>
    have hwf := h.consistent.ordered.wf.record i r hold
    by_cases hforgotten : r.phase = .forgotten
    · -- a record already forgotten stays as it is
      have hsame : ServerScopes.revoke r = r := by simp [ServerScopes.revoke, hforgotten]
      rw [hsame]
      exact ⟨fun hp => by simp [hforgotten] at hp,
        fun hr hp => (h.forgotten (hset hr) i r hold hp).imp_right (hmono _)⟩
    · simp only [ServerScopes.revoke, if_neg hforgotten]
      refine ⟨fun _ hs => (by cases hs), fun _ hp => ?_⟩
      -- only a destroyed record is forgotten here, and its destruction has been sent
      by_cases hd : r.destroyed = true
      · have hleaving : r.phase = .leaving := by
          have hgone := hwf.destroyed hd
          cases hphase : r.phase <;> simp_all [DeliveryPhase.isGone]
        have hunsent : session.feed.server.unsentDestroys = [] := by
          subst hcall
          exact hguard.resolve_left hpolicy
        have hmem := h.sent i r hold hleaving
          (exitSent_of_unsentDestroys hunsent hold hleaving hd)
        have hlatest : Delivery.latest session.feed.server.epoch
            { r.withdraw with
              phase := if r.destroyed then .forgotten else .leaving
              exitSent := false } = r.latest session.feed.server.epoch := by
          rw [Delivery.latest_destroyed hd]
          exact Delivery.latest_destroyed hd
        exact .inr (hmono _ (hlatest ▸ hmem))
      · simp [hd] at hp
  | marked r hphase hcall =>
    refine ⟨fun _ _ => hmarked _ (.inr ?_), fun _ hp => by simp [hphase] at hp⟩
    rw [hcall]
    exact markedBy_marking h.consistent.ordered.wf hold hphase
  | forgotten r hgone hcall =>
    have hcontrol := latest_control (h.consistent.ordered.wf.record i r hold) hgone
    exact ⟨fun hp => (by cases hp),
      fun _ _ => .inl (h.consistent.reached_of_ack hcontrol (hack _ hcall))⟩
  | reset r hs' => exact ⟨fun hp => (by cases hp), fun hr => by simp [hs'] at hr⟩

/-- A guarded call of the server keeps the fences. -/
theorem Fenced.serve (h : session.Fenced) (hack : ∀ ack, c = .ofAck ack → ack ∈ session.acks)
    (hguard : session.Guarded (.serve c)) {acked : List Ack}
    (hmarked : ∀ m, m ∈ session.marked ∨ m ∈ markedBy session.feed.server c → m ∈ marked)
    (hacked : ∀ ack ∈ acked, ack ∈ session.acks) :
    Fenced { session with feed := session.feed.step c, marked, acked } := by
  have hstep := ServerScopes.call_stepped h.consistent.ordered.wf h.consistent.ordered.epoch c
  have hepoch : (session.feed.step c).server.epoch = session.feed.server.epoch := hstep.epoch
  have hrecord : ∀ (i : ℕ) (r' : Delivery P), (session.feed.step c).server.records[i]? = some r' →
      ServerScopes.RecordStep session.feed.server (session.feed.server.call c).1 c i
        session.feed.server.records[i]? (some r') := fun i r' hr' => hr' ▸ hstep.record i
  refine ⟨h.consistent.serve (fun receipt hc => hack (.state receipt) hc) marked hacked, ?_, ?_⟩
  · intro i r' hr' hphase hsent
    rw [hepoch]
    exact (h.record (hrecord i r' hr') hack hguard hmarked hstep.reset).1 hphase hsent
  · intro hreset i r' hr' hphase
    rw [hepoch]
    exact (h.record (hrecord i r' hr') hack hguard hmarked hstep.reset).2 hreset hphase

/-- A delivery keeps the fences: the client only moves on. -/
theorem Fenced.deliver (h : session.Fenced) (k : ℕ) (validate : P → Bool) :
    (session.step (.deliver k validate)).Fenced := by
  have hconsistent := h.consistent.step (.deliver k validate)
  simp only [Session.step] at hconsistent ⊢
  cases hm : session.feed.net[k]? with
  | none => exact h
  | some m =>
    obtain ⟨w, hw, -⟩ :=
      h.consistent.shows.leftBy (List.mem_of_getElem? hm) h.consistent.ordered.coherent
    have happlied := ClientScopes.apply_applied validate (h.consistent.connection ▸
      h.consistent.ordered.valid m (List.mem_of_getElem? hm)) hw
    simp only [hm] at hconsistent
    cases happly : session.client.apply m validate with
    | mk client answer =>
      rw [happly] at happlied
      cases answer <;> simp only [happly] at hconsistent ⊢ <;>
        exact ⟨hconsistent, h.sent, fun hreset i r hr hphase =>
          (h.forgotten hreset i r hr hphase).imp_left (happlied.reached hw)⟩

/-- **Every guarded action keeps the fences.** -/
theorem Fenced.step (h : session.Fenced) (a : Action P) (hguard : session.Guarded a) :
    (session.step a).Fenced := by
  cases a with
  | serve c =>
    simp only [Session.step]
    split_ifs with hack
    · exact h
    · refine h.serve (fun ack hc => ?_) hguard (fun m hm => List.mem_append.mpr hm)
        h.consistent.acked
      cases ack <;> simp [hc, ServerScopes.Call.ofAck, ServerScopes.Call.isAck] at hack
  | deliver k validate => exact h.deliver k validate
  | acknowledge k =>
    have hconsistent := h.consistent.step (.acknowledge k)
    simp only [Session.step] at hconsistent ⊢
    cases hack : session.acks[k]? with
    | none => exact h
    | some ack =>
      have hmem := List.mem_of_getElem? hack
      have hmarked : markedBy session.feed.server (.ofAck ack) = [] := by cases ack <;> rfl
      refine h.serve (fun ack' hc => ?_) ?_ (fun m hm => ?_) fun a ha => ?_
      · have : ack = ack' := by cases ack <;> cases ack' <;> simp_all [ServerScopes.Call.ofAck]
        exact this ▸ hmem
      · cases ack <;> trivial
      · simpa [hmarked] using hm
      · rcases List.mem_append.mp ha with ha | ha
        · exact h.consistent.acked a ha
        · rwa [List.mem_singleton.mp ha]

end Steps

/-- A fenced session that has settled shows no ghosts. -/
theorem Fenced.noGhosts {session : Session P} (h : session.Fenced) (hsettled : session.Settled) :
    session.NoGhosts := by
  intro entity hgone
  cases hr : session.feed.server.records[entity.index]? with
  | none =>
    -- nothing was ever sent for the index
    cases hreplica : session.client.records[entity.index]? with
    | none => simp [ClientScopes.state, hreplica]
    | some replica =>
      obtain ⟨m, hm, hindex, -⟩ := h.consistent.shows _ replica hreplica
      obtain ⟨r, hr', -⟩ := h.consistent.ordered.passed m hm
      simp [hindex, hr] at hr'
  | some r =>
    have hphase := hgone r hr
    have hwf := h.consistent.ordered.wf.record _ r hr
    have hcontrol := latest_control hwf (by rw [hphase]; rfl)
    have hreached : session.client.Reached (r.latest session.feed.server.epoch) := by
      rcases h.forgotten hsettled.reset _ r hr hphase with hreached | hmarked
      · exact hreached
      · exact h.consistent.reached_of_ack hcontrol
          (h.consistent.acked _ (hsettled.marked _ hmarked))
    simp [ClientScopes.state, h.consistent.replica_of_reached hr hreached, hcontrol]

/-- **No ghost replicas.**  In every run that changes the policy only when every destruction has
been sent, a settled session publishes nothing for an entity the server does not hold or has
forgotten. -/
theorem no_ghosts [DecidableEq P] [Payload P] {connection epoch worldRevision policy : ℕ}
    {limits limits' : ScopeLimits} {server : ServerScopes P} {client : ClientScopes P}
    (hserver : ServerScopes.new connection epoch worldRevision policy limits = .ok server)
    (hclient : ClientScopes.new epoch limits' = .ok client) (actions : List (Action P))
    (hguarded : Meets step Guarded (start server client) actions)
    (hsettled : (run step (start server client) actions).Settled) :
    (run step (start server client) actions).NoGhosts := by
  obtain ⟨-, -, hempty, -⟩ := ServerScopes.new_ok hserver
  have hstart : (start server client).Fenced := by
    refine ⟨start_consistent hserver hclient, ?_, ?_⟩ <;> simp [start, hempty]
  have hfenced := Meets.invariant (I := Fenced) (fun _ a hs ha => hs.step a ha) hstart hguarded
  exact hfenced.noGhosts hsettled

/-- The same entity with the destruction sent, delivered and acknowledged before the policy
changes. -/
theorem no_ghosts_destroyed :
    let limits : ScopeLimits := ⟨4, 4, 64, 16, 2⟩
    let entity : EntityId := ⟨7, 1⟩
    let grants : EligibleSet := ⟨9, 1, 1, 10, fun _ => some ⟨⟨1, 1, 1, true⟩, 1⟩⟩
    let actions : List (Action (List UInt8)) :=
      [.serve (.offer grants entity false fun _ => [1, 2, 3]),
        .serve (.transmitPending entity fun _ => true), .deliver 0 fun _ => true,
        .serve (.destroy entity), .serve (.markDestroySent ⟨1, entity⟩),
        .serve (.advanceBarrier 1 2),
        .deliver 1 fun _ => true, .acknowledge 1]
    ∃ server client, ServerScopes.new 9 1 1 1 limits = .ok server ∧
      ClientScopes.new 1 limits = .ok client ∧
      (run step (start server client) actions).feed.server.phase entity = some .forgotten ∧
      (run step (start server client) actions).NoGhosts := by
  intro limits entity grants actions
  refine ⟨_, _, rfl, rfl, by decide, ?_⟩
  exact @no_ghosts (List UInt8) _ _ 9 1 1 1 limits limits _ _ rfl rfl actions
    ⟨trivial, trivial, trivial, trivial, trivial, .inr (by decide), trivial, trivial, trivial⟩
    ⟨by decide, by decide, by decide, by decide⟩

end Net.Session
