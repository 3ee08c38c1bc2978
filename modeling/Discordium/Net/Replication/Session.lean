import Discordium.Net.Replication.Feed

/-!
# Net — Replication — Session

One server and one client over lanes that lose, repeat and reorder.  Everything the server emits
stays on the wire and everything the client answers stays on the way back; a delivery picks any of
it, any number of times and in any order.  `Session.Consistent` ties the two together: what the
client shows it got from the wire, and what the client has acknowledged it has reached.
-/

namespace Net
open Lib
open Std (ExtTreeMap)

variable {P : Type}

/-- A call that hands the server an answer of the client. -/
def ServerScopes.Call.isAck : ServerScopes.Call P → Bool
  | .acknowledge _ | .acknowledgeExit _ | .acknowledgeDestroy _ => true
  | _ => false

structure Session (P : Type) where
  feed : Feed P
  client : ClientScopes P
  /-- Everything the client has answered. -/
  acks : List Ack
  /-- The controls marked as sent. -/
  marked : List (Message P)
  /-- The answers handed to the server. -/
  acked : List Ack

namespace Session

inductive Action (P : Type) where
  /-- Any call of the server but an acknowledgement. -/
  | serve (c : ServerScopes.Call P)
  /-- A message of the wire reaches the client, with its callback. -/
  | deliver (k : ℕ) (validate : P → Bool)
  /-- An answer of the client reaches the server. -/
  | acknowledge (k : ℕ)

def start (server : ServerScopes P) (client : ClientScopes P) : Session P :=
  { feed := ⟨server, []⟩, client, acks := [], marked := [], acked := [] }

variable [DecidableEq P] [Payload P]

/-- The controls a call marks as sent. -/
def markedBy (server : ServerScopes P) : ServerScopes.Call P → List (Message P)
  | .markExitSent e => (server.call (.markExitSent e)).2
  | .markDestroySent d => (server.call (.markDestroySent d)).2
  | _ => []

def step (session : Session P) : Action P → Session P
  | .serve c =>
    if c.isAck then session
    else
      { session with
        feed := session.feed.step c
        marked := session.marked ++ markedBy session.feed.server c }
  | .deliver k validate =>
    match session.feed.net[k]? with
    | none => session
    | some m =>
      match session.client.apply m validate with
      | (client, .ok ack) => { session with client, acks := session.acks ++ [ack] }
      | (client, .error _) => { session with client }
  | .acknowledge k =>
    match session.acks[k]? with
    | none => session
    | some ack =>
      { session with
        feed := session.feed.step (.ofAck ack)
        acked := session.acked ++ [ack] }

end Session

/-! ### What a client has reached -/

namespace ClientScopes

/-- The record of the index of a message is at or past it. -/
def Reached (client : ClientScopes P) (m : Message P) : Prop :=
  ∃ replica, client.records[m.index]? = some replica ∧ m.key ≤ replica.key

/-- Every record was left by a message of a list. -/
def Shows (client : ClientScopes P) (net : List (Message P)) : Prop :=
  ∀ (i : ℕ) (replica : Replica P), client.records[i]? = some replica →
    ∃ m ∈ net, m.index = i ∧ replica = m.replica

theorem Shows.mono {client : ClientScopes P} {net out : List (Message P)} (h : client.Shows net) :
    client.Shows (net ++ out) := by
  intro i replica hr
  obtain ⟨m, hm, hmi, hreplica⟩ := h i replica hr
  exact ⟨m, List.mem_append_left out hm, hmi, hreplica⟩

/-- A client that shows a wire of compatible messages was left by one of them at every index. -/
theorem Shows.leftBy {client : ClientScopes P} {net : List (Message P)} (h : client.Shows net)
    {m : Message P} (hm : m ∈ net)
    (hcoherent : ∀ m ∈ net, ∀ n ∈ net, m.index = n.index → m.Compatible n) :
    ∃ w : Option (Message P), client.LeftBy w m ∧ ∀ old, w = some old → old ∈ net := by
  cases hr : client.records[m.index]? with
  | none => exact ⟨none, ⟨hr, by simp⟩, by simp⟩
  | some replica =>
    obtain ⟨w, hw, hindex, rfl⟩ := h _ replica hr
    refine ⟨some w, ⟨hr, ?_⟩, ?_⟩
    · rintro _ ⟨rfl⟩
      exact ⟨hindex, hcoherent w hw m hm hindex⟩
    · rintro _ ⟨rfl⟩
      exact hw

section Delivery
variable {client client' : ClientScopes P} {w : Option (Message P)} {m : Message P}
  {validate : P → Bool} {answer : Except ReplicationError Ack}

section
variable (h : Applied client w m validate (client', answer))
include h

theorem Applied.connection : client'.connection = client.connection := by
  cases h <;> rfl

theorem Applied.shows {net : List (Message P)}
    (hm : m ∈ net) (hshows : client.Shows net) : client'.Shows net := by
  cases h with
  | full | invalid | fenced => exact hshows
  | written bytes =>
    intro i replica hr
    rw [lookup_insert] at hr
    split_ifs at hr with hi
    · exact ⟨m, hm, hi, (Option.some.inj hr).symm⟩
    · exact hshows i replica hr

/-- A delivery never takes a record back. -/
theorem Applied.reached (hw : client.LeftBy w m)
    {n : Message P} (hn : client.Reached n) : client'.Reached n := by
  cases h with
  | full | invalid | fenced => exact hn
  | written bytes hle =>
    obtain ⟨replica, hr, hkey⟩ := hn
    simp only [Reached, lookup_insert]
    by_cases hi : m.index = n.index
    · rw [if_pos hi]
      rw [← hi, hw.1] at hr
      obtain ⟨old, hold, rfl⟩ := Option.map_eq_some_iff.mp hr
      refine ⟨_, rfl, ?_⟩
      rw [Message.replica_key] at hkey ⊢
      exact hkey.trans (hle old hold)
    · rw [if_neg hi]
      exact ⟨replica, hr, hkey⟩

end

/-- An answer names the message and says that the client has reached it. -/
theorem Applied.acknowledged {ack : Ack} (h : Applied client w m validate (client', .ok ack))
    (hw : client.LeftBy w m) : ack = m.ack ∧ client'.Reached m := by
  cases h with
  | fenced old hold hle _ hok =>
    refine ⟨hok ack rfl, old.replica, ?_, ?_⟩
    · rw [hw.1, hold]
      rfl
    · rwa [Message.replica_key]
  | written bytes =>
    refine ⟨rfl, m.replica, ?_, ?_⟩
    · rw [lookup_insert, if_pos rfl]
    · rw [Message.replica_key]

end Delivery
end ClientScopes

/-! ### What a server has been told -/

/-- A dormant record is decoded up to its desired state. -/
def Delivery.Known (r : Delivery P) : Prop :=
  r.phase = .dormantKnown → ∃ state, r.desired = some state ∧ r.decoded = some state.receipt

namespace ServerScopes

theorem refreshPhase_known (r : Delivery P) : r.refreshPhase.Known := by
  intro hphase
  simp only [Delivery.refreshPhase] at hphase ⊢
  split_ifs at hphase with h₁ h₂
  cases hdesired : r.desired with
  | none => simp [hdesired] at h₂
  | some state =>
    simp only [hdesired, Option.any_some, Bool.and_eq_true, decide_eq_true_eq] at h₂
    exact ⟨state, rfl, h₂.2.symm⟩

variable {s s' : ServerScopes P} {c : Call P} {index : ℕ} {r' : Delivery P}
  {old : Option (Delivery P)}

theorem RecordStep.known (h : RecordStep s s' c index old (some r'))
    (hold : ∀ r, old = some r → r.Known) : r'.Known := by
  cases h with
  | same => exact hold r' rfl
  | entered => intro hphase; cases hphase
  | refreshed | requalified | decoded => exact refreshPhase_known _
  | proven r | marked r => exact hold r rfl
  | left | forgotten | reset => intro hphase; cases hphase
  | revoked r =>
    intro hphase
    simp only [revoke] at hphase
    split_ifs at hphase with h₁
    simp [h₁] at hphase

/-- A decoded receipt was decoded before or is the one acknowledged. -/
theorem RecordStep.decoded_of (h : RecordStep s s' c index old (some r')) {receipt : StateReceipt}
    (hd : r'.decoded = some receipt) :
    (∃ r, old = some r ∧ r.decoded = some receipt) ∨ c = .acknowledge receipt := by
  cases h with
  | same => exact .inl ⟨r', rfl, hd⟩
  | entered => cases hd
  | refreshed r | requalified r | proven r | marked r | forgotten r => exact .inl ⟨r, rfl, hd⟩
  | decoded r receipt' sent hcall =>
    obtain rfl := Option.some.inj hd
    exact .inr hcall
  | left | reset => cases hd
  | revoked r =>
    simp only [revoke] at hd
    split_ifs at hd
    · exact .inl ⟨r, rfl, hd⟩
    all_goals cases hd

end ServerScopes

/-! ### The joint invariant -/

namespace Session

structure Consistent (session : Session P) : Prop where
  ordered : session.feed.Ordered
  connection : session.client.connection = session.feed.server.epoch
  shows : session.client.Shows session.feed.net
  acks : ∀ ack ∈ session.acks, ∃ m ∈ session.feed.net, m.ack = ack ∧ session.client.Reached m
  acked : ∀ ack ∈ session.acked, ack ∈ session.acks
  decoded : ∀ (i : ℕ) (r : Delivery P), session.feed.server.records[i]? = some r →
    ∀ receipt, r.decoded = some receipt → Ack.state receipt ∈ session.acks
  known : ∀ (i : ℕ) (r : Delivery P), session.feed.server.records[i]? = some r → r.Known

section Steps
variable [DecidableEq P] [Payload P] {session : Session P}

/-- A call that acknowledges only what the client has answered. -/
theorem Consistent.serve (h : session.Consistent) {c : ServerScopes.Call P}
    (hc : ∀ receipt, c = .acknowledge receipt → Ack.state receipt ∈ session.acks)
    (marked : List (Message P)) {acked : List Ack} (hacked : ∀ ack ∈ acked, ack ∈ session.acks) :
    Consistent { session with feed := session.feed.step c, marked, acked } := by
  have hstep := ServerScopes.call_stepped h.ordered.wf h.ordered.epoch c
  refine ⟨h.ordered.step c, h.connection.trans hstep.epoch.symm, h.shows.mono, ?_, hacked, ?_, ?_⟩
  · intro ack hack
    obtain ⟨m, hm, hmack, hreached⟩ := h.acks ack hack
    exact ⟨m, List.mem_append_left _ hm, hmack, hreached⟩
  · intro i r' hr' receipt hdecoded
    have hrecord := hstep.record i
    rw [show (session.feed.server.call c).1.records[i]? = some r' from hr'] at hrecord
    rcases hrecord.decoded_of hdecoded with ⟨r, hr, hd⟩ | hcall
    · exact h.decoded i r hr receipt hd
    · exact hc receipt hcall
  · intro i r' hr'
    have hrecord := hstep.record i
    rw [show (session.feed.server.call c).1.records[i]? = some r' from hr'] at hrecord
    exact hrecord.known fun r hr => h.known i r hr

/-- A message of the wire that reaches the client. -/
theorem Consistent.deliver (h : session.Consistent) {m : Message P} (hm : m ∈ session.feed.net)
    (validate : P → Bool) {client : ClientScopes P} {answer : Except ReplicationError Ack}
    (happly : session.client.apply m validate = (client, answer)) (acks : List Ack)
    (hacks : ∀ ack ∈ acks, answer = .ok ack) :
    Consistent { session with client, acks := session.acks ++ acks } := by
  obtain ⟨w, hw, -⟩ := h.shows.leftBy hm h.ordered.coherent
  have happlied := ClientScopes.apply_applied validate (h.connection ▸ h.ordered.valid m hm) hw
  rw [happly] at happlied
  refine ⟨h.ordered, happlied.connection.trans h.connection, happlied.shows hm h.shows, ?_, ?_, ?_,
    h.known⟩
  · intro ack hack
    rcases List.mem_append.mp hack with hack | hack
    · obtain ⟨n, hn, hnack, hreached⟩ := h.acks ack hack
      exact ⟨n, hn, hnack, happlied.reached hw hreached⟩
    · obtain rfl := hacks ack hack
      obtain ⟨rfl, hreached⟩ := happlied.acknowledged hw
      exact ⟨m, hm, rfl, hreached⟩
  · exact fun ack hack => List.mem_append_left _ (h.acked ack hack)
  · exact fun i r hr receipt hd => List.mem_append_left _ (h.decoded i r hr receipt hd)

/-- **Every action keeps the session consistent.** -/
theorem Consistent.step (h : session.Consistent) (a : Action P) : (session.step a).Consistent := by
  cases a with
  | serve c =>
    simp only [Session.step]
    split_ifs with hack
    · exact h
    · refine h.serve (fun receipt hc => ?_) _ h.acked
      simp [hc, ServerScopes.Call.isAck] at hack
  | deliver k validate =>
    simp only [Session.step]
    cases hm : session.feed.net[k]? with
    | none => exact h
    | some m =>
      have hmem := List.mem_of_getElem? hm
      cases happly : session.client.apply m validate with
      | mk client answer =>
        cases answer with
        | ok ack =>
          simp only [happly]
          exact h.deliver hmem validate happly [ack] (by simp)
        | error e =>
          simp only [happly]
          simpa using h.deliver hmem validate happly [] (by simp)
  | acknowledge k =>
    simp only [Session.step]
    cases hack : session.acks[k]? with
    | none => exact h
    | some ack =>
      have hmem := List.mem_of_getElem? hack
      refine h.serve (fun receipt hc => ?_) _ fun a ha => ?_
      · cases ack <;> simp_all [ServerScopes.Call.ofAck]
      · rcases List.mem_append.mp ha with ha | ha
        · exact h.acked a ha
        · rwa [List.mem_singleton.mp ha]

end Steps

theorem start_consistent {connection epoch worldRevision policy : ℕ} {limits limits' : ScopeLimits}
    {server : ServerScopes P} {client : ClientScopes P}
    (hserver : ServerScopes.new connection epoch worldRevision policy limits = .ok server)
    (hclient : ClientScopes.new epoch limits' = .ok client) : (start server client).Consistent := by
  obtain ⟨-, hepoch, hrecords, -⟩ := ServerScopes.new_ok hserver
  have hempty := ClientScopes.new_ok hclient
  refine ⟨Feed.ordered_new hserver, hempty.2.trans hepoch.symm, ?_, ?_, ?_, ?_, ?_⟩ <;>
    simp [start, ClientScopes.Shows, hempty.1, hrecords]

/-- **What the client has reached it shows**: a client that has reached the latest message of an
index was left by it. -/
theorem Consistent.replica_of_reached {session : Session P} (h : session.Consistent) {i : ℕ}
    {r : Delivery P} (hr : session.feed.server.records[i]? = some r)
    (hreached : session.client.Reached (r.latest session.feed.server.epoch)) :
    session.client.records[i]? = some (r.latest session.feed.server.epoch).replica := by
  have hwf := h.ordered.wf.record i r hr
  have hindex := Delivery.latest_index hwf
  obtain ⟨replica, hreplica, hkey⟩ := hreached
  rw [hindex] at hreplica
  obtain ⟨w, hw, rfl, rfl⟩ := h.shows i replica hreplica
  obtain ⟨r', hr', hbehind⟩ := h.ordered.passed w hw
  obtain rfl := Option.some.inj (hr.symm.trans hr')
  rw [Message.replica_key] at hkey
  rw [hreplica, hbehind.2.eq_of_key (h.ordered.valid w hw) (Delivery.latest_valid hwf) hindex.symm
    (le_antisymm hbehind.1 hkey)]

end Session
end Net
