import Discordium.Net.Replication.Convergence
import Discordium.Net.Replication.Limits
import Discordium.Net.Replication.Session

/-!
# Net — Replication — Rejections

Whether a client calls a message of an honest server malformed.  A destruction replaces the fence of
its index by a made-up scope with epoch and representation 1; an exit of the entity's first scope
under another representation that comes after it is then taken for a conflict.
`late_exit_conflicts` is such a run.  Where no entity is destroyed after an exit of its first scope
under another representation than 1, every message is applied or fenced, and every exit is
acknowledged: `genuine_messages_accepted`.
-/

namespace Net
open Lib

variable {P : Type}

/-! ### Answers -/

/-- An answer that calls the message malformed. -/
def Malformed {α : Type} (answer : Except ReplicationError α) : Prop :=
  answer = .error .conflict ∨ answer = .error .invalidIdentity

theorem malformed_map {α β : Type} (f : α → β) {answer : Except ReplicationError α} :
    Malformed (answer.map f) ↔ Malformed answer := by
  cases answer <;> simp [Malformed, Except.map]

namespace ClientScopes

/-- An exit of an entity's first scope agrees with the scope under which its destruction is
recorded. -/
def Agrees (w : Option (Message P)) (m : Message P) : Prop :=
  ∀ d e, w = some (.destroy d) → m = .exit e → e.scope.entity = d.entity → e.scope.scope = 1 →
    e.scope.representation = 1

section Answers
variable {client : ClientScopes P} {w : Option (Message P)} {m : Message P} {state : FullState P}
  {error : ReplicationError} {old : Message P} {e : ScopeExit}

theorem checkPublication_genuine [DecidableEq P] {previous : FullState P}
    (hc : (Message.full previous).Compatible (.full state)) (hs : previous.scope = state.scope)
    (h : checkPublication state previous = some error) :
    error = .obsolete .publication := by
  rcases lt_trichotomy previous.snapshot state.snapshot with hlt | heq | hgt
  · rw [checkPublication_newer hc hs hlt] at h
    cases h
  · obtain rfl := hc.same _ _ rfl rfl hs heq
    simp [checkPublication] at h
  · obtain ⟨hversion, htick, hbaseline⟩ := hc.newer _ _ rfl rfl hs hgt
    simp only [checkPublication] at h
    rw [if_neg (by omega), if_neg (by omega), if_pos (by omega)] at h
    exact (Option.some.inj h).symm

/-- The fences of a genuine state are all behind it. -/
theorem checkFence_genuine [DecidableEq P]
    (hc : old.Compatible (.full state)) (hindex : old.index = state.scope.entity.index)
    (h : checkFence state old.replica = some error) :
    ∃ reason, error = .obsolete reason := by
  cases old with
  | full previous =>
    simp only [checkFence, Message.replica] at h
    split_ifs at h with h₁ h₂ h₃ h₄ h₅ h₆
    · exact ⟨_, (Option.some.inj h).symm⟩
    · exact ⟨_, (Option.some.inj h).symm⟩
    · exact absurd (hc.scope _ _ rfl rfl (EntityId.ext hindex h₂.symm) h₄.symm).symm h₅
    · exact h₆.elim
    · exact ⟨_, checkPublication_genuine hc (not_not.mp h₅).symm h⟩
  | exit e =>
    simp only [checkFence, Message.replica] at h
    split_ifs at h with h₁ h₂ h₃ h₄ h₅
    · exact ⟨_, (Option.some.inj h).symm⟩
    · exact ⟨_, (Option.some.inj h).symm⟩
    · exact absurd (hc.scope _ _ rfl rfl (EntityId.ext hindex h₂.symm) h₄.symm).symm h₅
    · exact ⟨_, (Option.some.inj h).symm⟩
  | destroy d =>
    simp only [checkFence, Message.replica, true_or, if_true] at h
    split_ifs at h
    · exact ⟨_, (Option.some.inj h).symm⟩
    · exact ⟨_, (Option.some.inj h).symm⟩

/-- A genuine exit that finds itself fenced is acknowledged. -/
theorem checkExit_genuine {connection : ℕ}
    (hc : old.Compatible (.exit e)) (hindex : old.index = e.scope.entity.index)
    (hvalid : validateScope e.scope connection = none) (hold : old.Valid connection)
    (hagrees : Agrees (some old) (.exit e)) {answer : Except ReplicationError ScopeExit}
    (h : checkExit e old.replica = some answer) : answer = .ok e := by
  have hscope : e.scope.entity.generation = old.replica.scope.entity.generation →
      e.scope.scope = old.replica.scope.scope → e.scope = old.replica.scope := by
    intro hg hs
    cases old with
    | full previous => exact (hc.scope _ _ rfl rfl (EntityId.ext hindex hg.symm) hs.symm).symm
    | exit e' => exact (hc.scope _ _ rfl rfl (EntityId.ext hindex hg.symm) hs.symm).symm
    | destroy d =>
      -- the made-up scope of the destruction
      have hentity : e.scope.entity = d.entity := EntityId.ext hindex.symm hg
      have hrepresentation := hagrees d e rfl rfl hentity hs
      have hconnection := (validateScope_eq_none.mp hvalid).1
      obtain ⟨hd, -⟩ := hold
      cases hscope : e.scope
      simp_all [Message.replica, destroyScope]
  simp only [checkExit] at h
  split_ifs at h with h₁ h₂ h₃
  · exact (Option.some.inj h).symm
  · exact absurd (hscope h₂.1 h₂.2.1) h₂.2.2
  · exact (Option.some.inj h).symm

/-- A full state whose fences are genuine is not called malformed. -/
theorem applyFull_genuine [DecidableEq P] [Payload P] (validate : P → Bool)
    (hvalid : state.validateIdentity client.connection = none)
    (hw : client.LeftBy w (.full state)) : ¬Malformed (client.applyFull state validate).2 := by
  obtain ⟨hrecord, hw⟩ := hw
  simp only [applyFull, hvalid]
  cases hcap : client.capacityFor state.scope.entity.index with
  | some error =>
    rcases capacityFor_some hcap with rfl | rfl <;> simp [Malformed]
  | none =>
    dsimp only
    split_ifs
    · simp [Malformed]
    · simp [Malformed]
    cases hfence : client.records[state.scope.entity.index]?.bind (checkFence state) with
    | some error =>
      obtain ⟨replica, hreplica, herror⟩ := Option.bind_eq_some_iff.mp hfence
      obtain ⟨old, rfl, rfl⟩ := Option.map_eq_some_iff.mp (hrecord.symm.trans hreplica)
      obtain ⟨hindex, hc⟩ := hw old rfl
      obtain ⟨reason, rfl⟩ := checkFence_genuine hc hindex herror
      simp [Malformed]
    | none =>
      dsimp only
      split
      · simp [Malformed]
      · split_ifs <;> simp [Malformed]

/-- A genuine exit is acknowledged where there is room for it. -/
theorem applyExit_genuine [Payload P]
    (hvalid : validateScope e.scope client.connection = none) (hw : client.LeftBy w (.exit e))
    (hold : ∀ old, w = some old → old.Valid client.connection) (hagrees : Agrees w (.exit e)) :
    (client.applyExit e).2 = .ok e ∨ (client.applyExit e).2 = .error .resetRequired := by
  obtain ⟨hrecord, hw⟩ := hw
  simp only [applyExit, hvalid]
  cases hcap : client.capacityFor e.scope.entity.index with
  | some error =>
    simp only [capacityFor] at hcap
    split_ifs at hcap
    cases hcap
    exact .inr rfl
  | none =>
    dsimp only
    cases hfence : client.records[e.scope.entity.index]?.bind (checkExit e) with
    | none => exact .inl rfl
    | some answer =>
      obtain ⟨replica, hreplica, hanswer⟩ := Option.bind_eq_some_iff.mp hfence
      obtain ⟨old, rfl, rfl⟩ := Option.map_eq_some_iff.mp (hrecord.symm.trans hreplica)
      obtain ⟨hindex, hc⟩ := hw old rfl
      exact .inl (checkExit_genuine hc hindex hvalid (hold old rfl) hagrees hanswer)

theorem applyDestroy_genuine [Payload P] {d : Destroy}
    (hvalid : d.connection = client.connection ∧ d.entity.generation ≠ 0) :
    ¬Malformed (client.applyDestroy d).2 := by
  simp only [applyDestroy, hvalid.1, hvalid.2, ne_eq, not_true_eq_false, if_false]
  cases hcap : client.capacityFor d.entity.index with
  | some error =>
    rcases capacityFor_some hcap with rfl | rfl <;> simp [Malformed]
  | none =>
    dsimp only
    split_ifs <;> simp [Malformed]

/-- **What a client answers to a genuine message.** -/
theorem apply_genuine [DecidableEq P] [Payload P] (validate : P → Bool)
    (hvalid : m.Valid client.connection) (hw : client.LeftBy w m)
    (hold : ∀ old, w = some old → old.Valid client.connection) (hagrees : Agrees w m) :
    ¬Malformed (client.apply m validate).2 ∧
      ∀ e, m = .exit e → client.HasRoom validate m → (client.apply m validate).2 =
        .ok (.exit e) := by
  cases m with
  | full state => exact ⟨fun h => applyFull_genuine validate hvalid hw ((malformed_map _).mp h),
      by rintro _ ⟨⟩⟩
  | exit e =>
    rcases applyExit_genuine hvalid hw hold hagrees with h | h
    · have hanswer : (client.apply (.exit e) validate).2 = .ok (.exit e) := by
        simp [apply, h, Except.map]
      exact ⟨by simp [hanswer, Malformed], by rintro _ ⟨rfl⟩ -; exact hanswer⟩
    · have hanswer : (client.apply (.exit e) validate).2 = .error .resetRequired := by
        simp [apply, h, Except.map]
      exact ⟨by simp [hanswer, Malformed], fun _ _ hroom => absurd hanswer hroom.1⟩
  | destroy d => exact ⟨fun h => applyDestroy_genuine hvalid ((malformed_map _).mp h),
      by rintro _ ⟨⟩⟩

end Answers
end ClientScopes

/-! ### Exits and destructions of one entity -/

/-- An exit of the first scope of an entity under another representation than 1. -/
def Message.firstExit (entity : EntityId) : Message P → Bool
  | .exit e => e.scope.entity = entity && e.scope.scope = 1 && e.scope.representation ≠ 1
  | _ => false

theorem Delivery.latest_eq_destroy {epoch : ℕ} {r : Delivery P} {d : Destroy}
    (h : r.latest epoch = .destroy d) : r.destroyed = true ∧ r.identity.entity = d.entity := by
  cases hd : r.destroyed with
  | true =>
    rw [latest_destroyed hd] at h
    cases h
    exact ⟨rfl, rfl⟩
  | false => cases hs : r.desired <;> simp [latest, hd, hs] at h

namespace ServerScopes

/-- The record of the entity's index is destroyed. -/
def Dead (s : ServerScopes P) (entity : EntityId) : Prop :=
  ∃ r, s.records[entity.index]? = some r ∧ r.identity.entity = entity ∧ r.destroyed = true

variable {s : ServerScopes P} {entity : EntityId}

theorem Latest.dead {d : Destroy} (h : s.Latest (.destroy d)) : s.Dead d.entity := by
  obtain ⟨r, hr, hlatest⟩ := h
  obtain ⟨hd, hentity⟩ := Delivery.latest_eq_destroy hlatest.symm
  exact ⟨r, hr, hentity, hd⟩

theorem Dead.passed (h : s.Dead entity) :
    s.Passed (.destroy ⟨s.epoch, entity⟩) := by
  obtain ⟨r, hr, hentity, hd⟩ := h
  refine ⟨r, hr, ?_⟩
  rw [Delivery.latest_destroyed hd, hentity]
  exact .refl _

/-- Once a destruction is passed, no exit of its entity is the latest message. -/
theorem Latest.not_exit {e : ScopeExit} (h : s.Latest (.exit e)) {d : Destroy}
    (hd : s.Passed (.destroy d)) : e.scope.entity ≠ d.entity := by
  intro hentity
  obtain ⟨r, hr, hlatest⟩ := h
  obtain ⟨r', hr', hbehind⟩ := hd
  have hr : s.records[e.scope.entity.index]? = some r := hr
  have hr' : s.records[d.entity.index]? = some r' := hr'
  rw [← hentity, hr] at hr'
  obtain rfl := Option.some.inj hr'
  have hle := hbehind.1
  rw [← hlatest] at hle
  simp only [Message.key, fenceKey_le, hentity] at hle
  omega

/-- An entity dies by a call that destroys it. -/
theorem dead_of_call [DecidableEq P] [Payload P] (hs : s.Within) (hwf : s.WellFormed)
    {c : Call P} (h : (s.call c).1.Dead entity) : s.Dead entity ∨ c = .destroy entity := by
  have heffect := attempt_effect hs hwf c
  rw [attempt_fst] at heffect
  generalize (s.call c).1 = s' at heffect h
  generalize (s.attempt c).2 = error at heffect
  obtain ⟨r', hr', hentity, hd⟩ := h
  cases heffect with
  | refused | kept => exact .inl ⟨r', hr', hentity, hd⟩
  | reset =>
    rw [requireReset, Std.ExtTreeMap.getElem?_map] at hr'
    obtain ⟨r, hr, rfl⟩ := Option.map_eq_some_iff.mp hr'
    exact .inl ⟨r, hr, hentity, hd⟩
  | revoked =>
    rw [Std.ExtTreeMap.getElem?_map] at hr'
    obtain ⟨r, hr, rfl⟩ := Option.map_eq_some_iff.mp hr'
    obtain ⟨hidentity, -, hdestroyed, -⟩ := revoke_closed (hwf.record _ r hr)
    exact .inl ⟨r, hr, hidentity ▸ hentity, hdestroyed ▸ hd⟩
  | placed _ index record h =>
    rw [h.records, lookup_insert] at hr'
    split_ifs at hr' with hi
    · obtain rfl := Option.some.inj hr'
      rcases h.destroyed hd with hcall | ⟨r, hr, hrd, hre⟩
      · exact .inr (hentity ▸ hcall)
      · exact .inl ⟨r, hi ▸ hr, hre.trans hentity, hrd⟩
    · exact .inl ⟨r', hr', hentity, hd⟩

end ServerScopes

namespace Feed
variable [DecidableEq P] [Payload P]

/-- No entity is destroyed after an exit of its first scope under another representation than 1. -/
def Separable (feed : Feed P) : ServerScopes.Call P → Prop
  | .destroy entity => ∀ m ∈ feed.net, m.firstExit entity = false
  | _ => True

/-- An entity that is dead, or whose destruction is on the wire, left its first scope under
representation 1. -/
structure Separate (feed : Feed P) : Prop where
  ordered : feed.Ordered
  within : feed.server.Within
  dead : ∀ entity, feed.server.Dead entity → ∀ m ∈ feed.net, m.firstExit entity = false
  sent : ∀ d, .destroy d ∈ feed.net → ∀ m ∈ feed.net, m.firstExit d.entity = false

variable {feed : Feed P} {c : ServerScopes.Call P}

/-- A call after the destruction of an entity puts no exit of it on the wire. -/
theorem Ordered.out_not_first (h : feed.Ordered) {d : Destroy}
    (hd : feed.server.Passed (.destroy d)) {m : Message P} (hm : m ∈ (feed.server.call c).2) :
    m.firstExit d.entity = false := by
  cases m with
  | full | destroy => rfl
  | exit e =>
    have hne : e.scope.entity ≠ d.entity := by
      rcases ServerScopes.call_emits h.wf hm with hlatest | hlatest
      · exact hlatest.not_exit hd
      · exact hlatest.not_exit ((ServerScopes.call_stepped h.wf h.epoch c).passed h.wf hd)
    simp [Message.firstExit, hne]

/-- **A call that meets the condition keeps exits and destructions separate.** -/
theorem Separate.step (h : feed.Separate) (hc : feed.Separable c) : (feed.step c).Separate := by
  have hdead : ∀ entity, feed.server.Dead entity → ∀ m ∈ (feed.step c).net,
      m.firstExit entity = false := by
    intro entity hentity m hm
    rcases List.mem_append.mp hm with hm | hm
    · exact h.dead entity hentity m hm
    · exact h.ordered.out_not_first hentity.passed hm
  have hdead' : ∀ entity, (feed.server.call c).1.Dead entity →
      ∀ m ∈ (feed.step c).net, m.firstExit entity = false := by
    intro entity hentity m hm
    rcases ServerScopes.dead_of_call h.within h.ordered.wf hentity with hold | rfl
    · exact hdead entity hold m hm
    · rcases List.mem_append.mp hm with hm | hm
      · exact hc m hm
      · -- a call that destroys emits nothing but the destruction
        cases hd : feed.server.destroy entity with
        | mk s' answer =>
          cases answer with
          | error => simp [ServerScopes.call, hd] at hm
          | ok d =>
            simp only [ServerScopes.call, hd, List.mem_singleton] at hm
            rw [hm]
            rfl
  refine ⟨h.ordered.step c, ?_, hdead', fun d hd m hm => ?_⟩
  · have heffect := ServerScopes.attempt_effect h.within h.ordered.wf c
    rw [ServerScopes.attempt_fst] at heffect
    exact heffect.within h.within
  · rcases List.mem_append.mp hd with hd | hd
    · rcases List.mem_append.mp hm with hm | hm
      · exact h.sent d hd m hm
      · exact h.ordered.out_not_first (h.ordered.passed _ hd) hm
    · rcases ServerScopes.call_emits h.ordered.wf hd with hlatest | hlatest
      · exact hdead d.entity hlatest.dead m hm
      · exact hdead' d.entity hlatest.dead m hm

theorem separate_run {connection epoch worldRevision policy : ℕ} {limits : ScopeLimits}
    {server : ServerScopes P}
    (h : ServerScopes.new connection epoch worldRevision policy limits = .ok server)
    {calls : List (ServerScopes.Call P)} (hcalls : Meets step Separable ⟨server, []⟩ calls) :
    (run step ⟨server, []⟩ calls).Separate := by
  obtain ⟨-, -, hrecords, -⟩ := ServerScopes.new_ok h
  refine Meets.invariant (I := Separate) (fun feed c hfeed hc => hfeed.step hc) ?_ hcalls
  exact ⟨ordered_new h, (ServerScopes.new_within h).1, by simp, by simp⟩

end Feed

/-! ### Deliveries -/

namespace ClientScopes
variable [DecidableEq P] [Payload P]

/-- A message and the callback that checks its payload. -/
abbrev Arrival (P : Type) := Message P × (P → Bool)

def arrive (client : ClientScopes P) (arrival : Arrival P) : ClientScopes P :=
  (client.apply arrival.1 arrival.2).1

/-- **A late exit conflicts.**  An entity leaves its first scope under representation 2, enters
again and is destroyed.  The destruction arrives before the exit, which the client then answers with
a conflict. -/
theorem late_exit_conflicts :
    let limits : ScopeLimits := ⟨4, 4, 64, 16, 2⟩
    let entity : EntityId := ⟨7, 1⟩
    let grants : EligibleSet := ⟨9, 1, 1, 10, fun _ => some ⟨⟨1, 2, 1, true⟩, 1⟩⟩
    let offer : ServerScopes.Call (List UInt8) := .offer grants entity false fun _ => [1, 2, 3]
    let calls : List (ServerScopes.Call (List UInt8)) :=
      [offer, .exit entity, offer, .destroy entity]
    let exit : ScopeExit := ⟨⟨1, entity, 1, 2⟩⟩
    ∃ (server : ServerScopes (List UInt8)) (client : ClientScopes (List UInt8)),
      ServerScopes.new 9 1 1 1 limits = .ok server ∧ ClientScopes.new 1 limits = .ok client ∧
      (run Feed.step ⟨server, []⟩ calls).net = [.exit exit, .destroy ⟨1, entity⟩] ∧
      ((client.arrive (.destroy ⟨1, entity⟩, fun _ => true)).apply (.exit exit) fun _ => true).2 =
        .error .conflict := by
  intro limits entity grants offer calls exit
  exact ⟨_, _, rfl, rfl, by decide +kernel, by decide +kernel⟩

/-- **Genuine messages are accepted.**  In every run of the server that destroys no entity after an
exit of its first scope under another representation than 1, whatever has arrived before, a message
of the wire is not called malformed, and an exit is acknowledged where there is room. -/
theorem genuine_messages_accepted {connection epoch worldRevision policy : ℕ}
    {limits limits' : ScopeLimits} {server : ServerScopes P} {client : ClientScopes P}
    (hserver : ServerScopes.new connection epoch worldRevision policy limits = .ok server)
    (hclient : ClientScopes.new epoch limits' = .ok client) (calls : List (ServerScopes.Call P))
    (hcalls : Meets Feed.step Feed.Separable ⟨server, []⟩ calls) (arrivals : List (Arrival P))
    (harrivals : ∀ arrival ∈ arrivals, arrival.1 ∈ (run Feed.step ⟨server, []⟩ calls).net)
    (m : Message P) (validate : P → Bool) (hm : m ∈ (run Feed.step ⟨server, []⟩ calls).net) :
    ¬Malformed ((run arrive client arrivals).apply m validate).2 ∧
      ∀ e, m = .exit e → (run arrive client arrivals).HasRoom validate m →
        ((run arrive client arrivals).apply m validate).2 = .ok (.exit e) := by
  have hseparate := Feed.separate_run hserver hcalls
  have hepoch := (Feed.ordered_run hserver calls).2
  obtain ⟨hrecords, hconnection⟩ := ClientScopes.new_ok hclient
  generalize run Feed.step ⟨server, []⟩ calls = feed at hseparate hepoch harrivals hm
  have hordered := hseparate.ordered
  -- after any arrivals the client shows messages of the wire
  have hshows : (run arrive client arrivals).Shows feed.net ∧
      (run arrive client arrivals).connection = feed.server.epoch := by
    have hstart : client.Shows feed.net ∧ client.connection = feed.server.epoch :=
      ⟨fun i r hr => by simp [hrecords] at hr, hconnection.trans hepoch.symm⟩
    clear hclient hrecords hconnection
    induction arrivals generalizing client with
    | nil => exact hstart
    | cons arrival arrivals ih =>
      refine ih (fun a ha => harrivals a (List.mem_cons_of_mem _ ha)) ?_
      have hin := harrivals arrival List.mem_cons_self
      obtain ⟨w, hw, -⟩ := hstart.1.leftBy hin hordered.coherent
      have happlied := apply_applied arrival.2 (hstart.2 ▸ hordered.valid _ hin) hw
      exact ⟨happlied.shows hin hstart.1, happlied.connection.trans hstart.2⟩
  obtain ⟨w, hw, hnet⟩ := hshows.1.leftBy hm hordered.coherent
  refine apply_genuine validate (hshows.2 ▸ hordered.valid m hm) hw
    (fun old hold => hshows.2 ▸ hordered.valid old (hnet old hold)) ?_
  rintro d e hd rfl hentity hscope
  have hfirst := hseparate.sent d (hnet _ hd) _ hm
  simpa [Message.firstExit, hentity, hscope] using hfirst

/-- The entity of the late exit, under representation 1. -/
theorem genuine_messages_accepted_late_exit :
    let limits : ScopeLimits := ⟨4, 4, 64, 16, 2⟩
    let entity : EntityId := ⟨7, 1⟩
    let grants : EligibleSet := ⟨9, 1, 1, 10, fun _ => some ⟨⟨1, 1, 1, true⟩, 1⟩⟩
    let offer : ServerScopes.Call (List UInt8) := .offer grants entity false fun _ => [1, 2, 3]
    let calls : List (ServerScopes.Call (List UInt8)) :=
      [offer, .exit entity, offer, .destroy entity]
    let exit : ScopeExit := ⟨⟨1, entity, 1, 1⟩⟩
    let arrivals : List (Arrival (List UInt8)) := [(.destroy ⟨1, entity⟩, fun _ => true)]
    ∃ (server : ServerScopes (List UInt8)) (client : ClientScopes (List UInt8)),
      ServerScopes.new 9 1 1 1 limits = .ok server ∧ ClientScopes.new 1 limits = .ok client ∧
      (run Feed.step ⟨server, []⟩ calls).net = [.exit exit, .destroy ⟨1, entity⟩] ∧
      ((run arrive client arrivals).apply (.exit exit) fun _ => true).2 = .ok (.exit exit) := by
  intro limits entity grants offer calls exit arrivals
  refine ⟨_, _, rfl, rfl, by decide +kernel, ?_⟩
  have hseparable : ∀ m ∈ ([.exit exit] : List (Message (List UInt8))),
      m.firstExit entity = false := by decide
  exact (@genuine_messages_accepted (List UInt8) _ _ 9 1 1 1 limits limits _ _ rfl rfl calls
    ⟨trivial, trivial, trivial, hseparable, trivial⟩ arrivals (by decide +kernel) (.exit exit)
      (fun _ => true)
    (by decide +kernel)).2 exit rfl (by decide +kernel)

end ClientScopes
end Net
