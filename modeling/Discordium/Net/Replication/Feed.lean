import Discordium.Lib.Machine
import Discordium.Net.Replication.Progress

/-!
# Net — Replication — Feed

The server together with everything it has put on the wire.  The invariant `Feed.Ordered` says that
every message of an index is behind the latest message of its record, and that any two messages of
an index are compatible.  It holds in every run of a server, whatever acknowledgements it is given.
-/

namespace Net
open Lib
open Std (ExtTreeMap)

variable {P : Type}

namespace Message

/-- A message is no newer than another one of its index and agrees with it. -/
def Behind (m latest : Message P) : Prop := m.key ≤ latest.key ∧ m.Compatible latest

theorem Compatible.refl (m : Message P) : m.Compatible m where
  scope a b ha hb _ _ := Option.some.inj (ha.symm.trans hb)
  same f g hf hg _ _ := full.inj (hf.symm.trans hg)
  older f g hf hg _ hlt := absurd hlt (by rw [full.inj (hf.symm.trans hg)]; exact lt_irrefl _)
  newer f g hf hg _ hlt := absurd hlt (by rw [full.inj (hf.symm.trans hg)]; exact lt_irrefl _)

theorem Behind.refl (m : Message P) : m.Behind m := ⟨le_rfl, .refl m⟩

theorem compatible_destroy (m : Message P) (d : Destroy) : m.Compatible (.destroy d) where
  scope _ _ _ h := by cases h
  same _ _ _ h := by cases h
  older _ _ _ h := by cases h
  newer _ _ _ h := by cases h

variable {m : Message P} {state : FullState P}

theorem compatible_exit {e : ScopeExit}
    (h : ∀ a, m.scope? = some a → a.entity = e.scope.entity → a.scope = e.scope.scope →
      a = e.scope) :
    m.Compatible (.exit e) where
  scope a b ha hb := by
    obtain rfl := Option.some.inj hb
    exact h a ha
  same _ _ _ h := by cases h
  older _ _ _ h := by cases h
  newer _ _ _ h := by cases h

/-- A message about a scope is at or past the opening of the scope. -/
theorem scope_le_key {a : ScopeIdentity} (h : m.scope? = some a) :
    fenceKey a.entity.generation 0 a.scope 0 0 ≤ m.key := by
  cases m with
  | full state => cases h; simp [key, fenceKey_le]
  | exit e => cases h; simp [key, fenceKey_le]
  | destroy d => cases h

/-- What is behind a message before a scope is compatible with every state of the scope. -/
theorem Behind.enter {latest : Message P} (h : m.Behind latest)
    (hlt : latest.key < fenceKey state.scope.entity.generation 0 state.scope.scope 0 0) :
    m.Behind (.full state) := by
  have hnone : ∀ a, m.scope? = some a → a.entity = state.scope.entity →
      a.scope ≠ state.scope.scope := by
    intro a ha hentity hscope
    have hle := (scope_le_key ha).trans h.1
    rw [hentity, hscope] at hle
    exact absurd hlt (not_lt.mpr hle)
  have hfull : ∀ f, m = .full f → f.scope ≠ state.scope := by
    rintro f rfl hscope
    exact hnone f.scope rfl (by rw [hscope]) (by rw [hscope])
  refine ⟨(h.1.trans hlt.le).trans (scope_le_key (m := .full state) rfl), ?_, ?_, ?_, ?_⟩
  · rintro a _ ha ⟨rfl⟩ hentity hscope
    exact absurd hscope (hnone a ha hentity)
  all_goals
    rintro f _ hf ⟨rfl⟩ hscope
    exact absurd hscope (hfull f hf)

/-- What is behind a state is behind every newer state of its scope. -/
theorem Behind.refresh {previous : FullState P} (h : m.Behind (.full previous))
    (hscope : state.scope = previous.scope) (hsnapshot : previous.snapshot < state.snapshot)
    (hbaseline : previous.baselineGeneration ≤ state.baselineGeneration)
    (hversion : previous.version < state.version) (htick : previous.endTick ≤ state.endTick) :
    m.Behind (.full state) := by
  obtain ⟨hkey, hc⟩ := h
  have hle : (full previous).key ≤ (full state).key := by
    simp [key, fenceKey_le, hscope, hsnapshot.le]
  -- a state of the scope is the previous one or older, so it is older than the new one
  have hold : ∀ f, m = .full f → f.scope = state.scope → f.snapshot < state.snapshot ∧
      f.version < state.version ∧ f.endTick ≤ state.endTick ∧
        f.baselineGeneration ≤ state.baselineGeneration := by
    rintro f rfl hf
    have hf' : f.scope = previous.scope := hf.trans hscope
    have hsnap : f.snapshot ≤ previous.snapshot := by
      simpa [key, fenceKey_le, hf'] using hkey
    rcases hsnap.eq_or_lt with heq | hlt
    · obtain rfl := hc.same _ _ rfl rfl hf' heq
      exact ⟨hsnapshot, hversion, htick, hbaseline⟩
    · obtain ⟨h₁, h₂, h₃⟩ := hc.older _ _ rfl rfl hf' hlt
      exact ⟨hlt.trans hsnapshot, h₁.trans hversion, h₂.trans htick, h₃.trans hbaseline⟩
  refine ⟨hkey.trans hle, ?_, ?_, ?_, ?_⟩
  · rintro a _ ha ⟨rfl⟩ hentity hs
    rw [hscope] at hentity hs ⊢
    exact hc.scope a _ ha rfl hentity hs
  · rintro f _ hf ⟨rfl⟩ hs hsnap
    exact absurd hsnap (hold f hf hs).1.ne
  · rintro f _ hf ⟨rfl⟩ hs -
    exact (hold f hf hs).2
  · rintro f _ hf ⟨rfl⟩ hs hsnap
    exact absurd hsnap (not_lt.mpr (hold f hf hs).1.le)

end Message

namespace Delivery
variable {epoch next index : ℕ}

theorem latest_congr {r r' : Delivery P} (hidentity : r'.identity = r.identity)
    (hdesired : r'.desired = r.desired) (hdestroyed : r'.destroyed = r.destroyed) :
    r'.latest epoch = r.latest epoch := by
  simp only [latest, hidentity, hdesired, hdestroyed]

/-- The latest message of a record is about its entity, and unless it is a destruction about its
scope. -/
theorem WellFormed.latest_key_le {r : Delivery P} (h : r.WellFormed epoch next index) :
    (r.destroyed = false → (r.latest epoch).scope? = some r.identity) ∧
    (r.latest epoch).key ≤
      if r.destroyed then fenceKey r.identity.entity.generation 1 0 0 0
      else fenceKey r.identity.entity.generation 0 r.identity.scope 1 0 := by
  cases hd : r.destroyed with
  | true => rw [latest_destroyed hd]; exact ⟨by simp, le_rfl⟩
  | false =>
    cases hs : r.desired with
    | none => rw [h.latest_gone (h.live.mp hs) hd]; exact ⟨fun _ => rfl, le_rfl⟩
    | some state =>
      obtain ⟨hscope, -⟩ := h.desired state hs
      rw [h.latest_live hs]
      exact ⟨fun _ => congrArg some hscope, by simp [Message.key, fenceKey_le, hscope]⟩

/-- A record without a desired state closes the scope of the record it replaces. -/
theorem WellFormed.behind_closed {r r' : Delivery P} (h : r.WellFormed epoch next index)
    (hidentity : r'.identity = r.identity) (hdesired : r'.desired = none)
    (hdestroyed : r.destroyed = true → r'.destroyed = true) {m : Message P}
    (hm : m.Behind (r.latest epoch)) : m.Behind (r'.latest epoch) := by
  obtain ⟨hscope, hkey⟩ := h.latest_key_le
  cases hd' : r'.destroyed with
  | true =>
    rw [latest_destroyed hd']
    refine ⟨(hm.1.trans hkey).trans ?_, Message.compatible_destroy _ _⟩
    cases r.destroyed <;> simp [Message.key, fenceKey_le, hidentity]
  | false =>
    have hd : r.destroyed = false := by
      by_contra hd
      simp [hdestroyed (by simpa using hd)] at hd'
    have hlatest : r'.latest epoch = .exit ⟨r.identity⟩ := by
      simp [latest, hd', hdesired, hidentity]
    rw [hlatest]
    refine ⟨(hm.1.trans hkey).trans (by simp [hd, Message.key]), Message.compatible_exit ?_⟩
    exact fun a ha => hm.2.scope a _ ha (hscope hd)

/-- A record that closes the scope of a well-formed one is well-formed. -/
theorem WellFormed.closed {r r' : Delivery P} (h : r.WellFormed epoch next index) {next' : ℕ}
    (hidentity : r'.identity = r.identity) (hdesired : r'.desired = none)
    (hgone : r'.phase.isGone = true) : r'.WellFormed epoch next' index where
  scope := hidentity ▸ h.scope
  index := hidentity ▸ h.index
  live := ⟨fun _ => hgone, fun _ => hdesired⟩
  destroyed _ := hgone
  desired state hs := by simp [hdesired] at hs

/-- A record that keeps what the invariant is about is well-formed. -/
theorem WellFormed.congr {r r' : Delivery P} (h : r.WellFormed epoch next index) {next' : ℕ}
    (hnext : next ≤ next') (hidentity : r'.identity = r.identity)
    (hdesired : r'.desired = r.desired) (hdestroyed : r'.destroyed = r.destroyed)
    (hphase : r'.phase.isGone = r.phase.isGone) :
    r'.WellFormed epoch next' index where
  scope := hidentity ▸ h.scope
  index := hidentity ▸ h.index
  live := by rw [hdesired, hphase]; exact h.live
  destroyed := by rw [hdestroyed, hphase]; exact h.destroyed
  desired state hs := by
    obtain ⟨h₁, h₂, h₃, h₄, h₅⟩ := h.desired state (hdesired ▸ hs)
    exact ⟨h₁.trans hidentity.symm, h₂, h₃, h₄, h₅.trans_le hnext⟩

/-- A live record with a fresh desired state of its scope is well-formed. -/
theorem WellFormed.publish {s : ServerScopes P} {r : Delivery P} {state : FullState P}
    (hnext : s.nextSnapshot ≠ 0) (hstate : s.Fresh index state)
    (hidentity : r.identity = state.scope) (hdesired : r.desired = some state)
    (hdestroyed : r.destroyed = false) (hphase : r.phase.isGone = false) :
    r.WellFormed s.epoch (s.nextSnapshot + 1) index where
  scope := hidentity ▸ hstate.scope
  index := hidentity ▸ hstate.index
  live := by simp [hdesired, hphase]
  destroyed h := by simp [hdestroyed] at h
  desired st hs := by
    obtain rfl := Option.some.inj (hdesired.symm.trans hs)
    refine ⟨hidentity.symm, by rw [hstate.baseline, hstate.snapshot], ?_, hstate.version, ?_⟩
    · rw [hstate.snapshot]
      exact hnext
    · rw [hstate.snapshot]
      exact Nat.lt_succ_self _

theorem WellFormed.not_destroyed {r : Delivery P} (h : r.WellFormed epoch next index)
    (hlive : r.phase.isGone = false) : r.destroyed = false := by
  by_contra hd
  simp [h.destroyed (by simpa using hd)] at hlive

end Delivery

namespace ServerScopes

/-- What `revoke` leaves of a record. -/
theorem revoke_closed {epoch next index : ℕ} {r : Delivery P} (h : r.WellFormed epoch next index) :
    (revoke r).identity = r.identity ∧ (revoke r).desired = none ∧
      (revoke r).destroyed = r.destroyed ∧ (revoke r).phase.isGone = true := by
  simp only [revoke]
  split_ifs with h₁ h₂
  · exact ⟨rfl, h.live.mpr (by rw [h₁]; rfl), rfl, by rw [h₁]; rfl⟩
  · exact ⟨rfl, rfl, rfl, rfl⟩
  · exact ⟨rfl, rfl, rfl, rfl⟩

section Steps
variable {s s' : ServerScopes P} {c : Call P} {index : ℕ} {r r' : Delivery P}

/-- **A step keeps a record well-formed.** -/
theorem RecordStep.wellFormed {old : Option (Delivery P)}
    (h : RecordStep s s' c index old (some r')) (hnext₀ : s.nextSnapshot ≠ 0)
    (hnext : s.nextSnapshot ≤ s'.nextSnapshot)
    (hwf : ∀ r, old = some r → r.WellFormed s.epoch s.nextSnapshot index) :
    r'.WellFormed s.epoch s'.nextSnapshot index := by
  cases h with
  | same => exact (hwf r' rfl).congr hnext rfl rfl rfl rfl
  | entered _ state dormant hstate hs =>
    rw [hs]
    exact .publish hnext₀ hstate rfl rfl rfl rfl
  | refreshed r previous state dormant hlive hprevious hstate hs hscope =>
    rw [hs]
    exact .publish hnext₀ hstate hscope.symm rfl ((hwf r rfl).not_destroyed hlive)
      (Delivery.refreshPhase_isGone _)
  | requalified r dormant hlive =>
    exact (hwf r rfl).congr hnext rfl rfl rfl ((Delivery.refreshPhase_isGone _).trans hlive.symm)
  | proven r sent => exact (hwf r rfl).congr hnext rfl rfl rfl rfl
  | decoded r receipt sent _ hlive =>
    exact (hwf r rfl).congr hnext rfl rfl rfl ((Delivery.refreshPhase_isGone _).trans hlive.symm)
  | left r destroyed hlive => exact (hwf r rfl).closed rfl rfl rfl
  | revoked r =>
    obtain ⟨h₁, h₂, -, h₄⟩ := revoke_closed (hwf r rfl)
    exact (hwf r rfl).closed h₁ h₂ h₄
  | marked r => exact (hwf r rfl).congr hnext rfl rfl rfl rfl
  | forgotten r hgone => exact (hwf r rfl).closed rfl ((hwf r rfl).live.mpr hgone) rfl
  | reset r => exact (hwf r rfl).closed rfl rfl rfl

/-- **A step only moves the latest message on.** -/
theorem RecordStep.behind {new : Option (Delivery P)} (h : RecordStep s s' c index (some r) new)
    (hwf : r.WellFormed s.epoch s.nextSnapshot index) :
    ∃ r', new = some r' ∧
      ∀ m : Message P, m.Behind (r.latest s.epoch) → m.Behind (r'.latest s.epoch) := by
  cases h with
  | same => exact ⟨r, rfl, fun m hm => hm⟩
  | entered _ state dormant hstate _ hold =>
    refine ⟨_, rfl, fun m hm => ?_⟩
    obtain ⟨hscope, hgeneration⟩ := hold r rfl
    refine hm.enter (hwf.latest_key_le.2.trans_lt (lt_of_not_ge fun hle => ?_))
    cases hd : r.destroyed <;> simp only [hd, Bool.false_eq_true, if_true, if_false, fenceKey_le]
      at hle <;>
      simp only [hd, Bool.true_eq_false, and_false, or_false, and_true] at hgeneration <;> omega
  | refreshed _ previous state dormant hlive hprevious hstate _ hscope hversion htick =>
    refine ⟨_, rfl, fun m hm => ?_⟩
    obtain ⟨hid, hbase, -, -, hlt⟩ := hwf.desired previous hprevious
    rw [hwf.latest_live hprevious] at hm
    have hnew : (Delivery.refreshPhase { r with desired := some state, dormant }).latest s.epoch =
        .full state := by
      simp [Delivery.latest, Delivery.refreshPhase, hwf.not_destroyed hlive]
    rw [hnew]
    refine hm.refresh (hscope.trans hid.symm) ?_ ?_ hversion htick
    · rw [hstate.snapshot]
      exact hlt
    · rw [hstate.baseline, hbase]
      exact hlt.le
  | requalified | proven | decoded | marked =>
    exact ⟨_, rfl, fun m hm => by rwa [Delivery.latest_congr rfl rfl rfl]⟩
  | left _ destroyed hlive =>
    refine ⟨_, rfl, fun m hm => hwf.behind_closed ?_ ?_ (fun hd => ?_) hm⟩
    · rfl
    · rfl
    · simp [hwf.not_destroyed hlive] at hd
  | revoked =>
    obtain ⟨h₁, h₂, h₃, -⟩ := revoke_closed hwf
    exact ⟨_, rfl, fun m hm => hwf.behind_closed h₁ h₂ (fun hd => h₃.trans hd) hm⟩
  | forgotten => exact ⟨_, rfl, fun m hm => by rwa [Delivery.latest_congr rfl rfl rfl]⟩
  | reset =>
    refine ⟨_, rfl, fun m hm => hwf.behind_closed ?_ ?_ ?_ hm⟩
    · rfl
    · rfl
    · exact id

theorem Stepped.wellFormed (h : Stepped s s' c) (hwf : s.WellFormed) : s'.WellFormed where
  next := by
    have := hwf.next
    have := h.next
    omega
  record i r' hr' := by
    have hstep := h.record i
    rw [hr'] at hstep
    rw [h.epoch]
    exact hstep.wellFormed hwf.next h.next fun r hr => hwf.record i r hr

end Steps

theorem new_ok {connection epoch worldRevision policy : ℕ} {limits : ScopeLimits}
    {server : ServerScopes P} (h : new connection epoch worldRevision policy limits = .ok server) :
    server.epoch ≠ 0 ∧ server.epoch = epoch ∧ server.records = ∅ ∧ server.nextSnapshot = 1 := by
  simp only [new] at h
  split_ifs at h with hepoch
  cases hl : limits.validate <;> simp only [hl, Except.map, reduceCtorEq, Except.ok.injEq] at h
  subst h
  exact ⟨hepoch, rfl, rfl, rfl⟩

/-! ### What is emitted -/

/-- A message is the latest one of the record of its index. -/
def Latest (s : ServerScopes P) (m : Message P) : Prop :=
  ∃ r, s.records[m.index]? = some r ∧ m = r.latest s.epoch

theorem WellFormed.latest {s : ServerScopes P} (hwf : s.WellFormed) {index : ℕ} {r : Delivery P}
    (hr : s.records[index]? = some r) : s.Latest (r.latest s.epoch) :=
  ⟨r, by rwa [Delivery.latest_index (hwf.record index r hr)], rfl⟩

/-- A message is behind the record of its index. -/
def Passed (s : ServerScopes P) (m : Message P) : Prop :=
  ∃ r, s.records[m.index]? = some r ∧ m.Behind (r.latest s.epoch)

variable {m : Message P} {entity : EntityId} {state : FullState P}

theorem Latest.passed {s : ServerScopes P} (h : s.Latest m) : s.Passed m := by
  obtain ⟨r, hr, hm⟩ := h
  exact ⟨r, hr, hm ▸ .refl m⟩

theorem Latest.valid {s : ServerScopes P} (hwf : s.WellFormed) (h : s.Latest m) :
    m.Valid s.epoch := by
  obtain ⟨r, hr, hm⟩ := h
  rw [hm]
  exact Delivery.latest_valid (hwf.record _ r hr)

theorem Latest.compatible {s : ServerScopes P} {n : Message P} (h : s.Latest n) (hm : s.Passed m)
    (hindex : m.index = n.index) : m.Compatible n := by
  obtain ⟨r, hr, hn⟩ := h
  obtain ⟨r', hr', hbehind⟩ := hm
  rw [hindex, hr] at hr'
  obtain rfl := Option.some.inj hr'
  exact hn ▸ hbehind.2

/-- What a server has passed it has passed after any call. -/
theorem Stepped.passed {s s' : ServerScopes P} {c : Call P} (h : Stepped s s' c)
    (hwf : s.WellFormed) (hm : s.Passed m) : s'.Passed m := by
  obtain ⟨r, hr, hbehind⟩ := hm
  have hrecord := h.record m.index
  rw [hr] at hrecord
  obtain ⟨r', hr', hmove⟩ := hrecord.behind (hwf.record _ r hr)
  exact ⟨r', hr', h.epoch ▸ hmove m hbehind⟩

theorem state_latest {s : ServerScopes P} (hwf : s.WellFormed) (h : s.state entity = some state) :
    s.Latest (.full state) := by
  obtain ⟨r, hr, hstate⟩ := Option.bind_eq_some_iff.mp h
  obtain ⟨hlookup, -⟩ := record_eq_some.mp hr
  split_ifs at hstate
  rw [← (hwf.record _ r hlookup).latest_live hstate]
  exact hwf.latest hlookup

theorem pending_state {s : ServerScopes P}
    (h : s.pending entity = some state) : s.state entity = some state := by
  obtain ⟨r, hr, hstate⟩ := Option.bind_eq_some_iff.mp h
  refine Option.bind_eq_some_iff.mpr ⟨r, hr, ?_⟩
  split_ifs at hstate ⊢
  exact (Option.filter_eq_some_iff.mp hstate).1

theorem pendingExits_latest {s : ServerScopes P} (hwf : s.WellFormed) {e : ScopeExit}
    (h : e ∈ s.pendingExits) : s.Latest (.exit e) := by
  obtain ⟨r, hr, rfl⟩ := List.mem_map.mp h
  simp only [List.mem_filter, mem_values, Bool.and_eq_true, decide_eq_true_eq,
    Bool.not_eq_true'] at hr
  obtain ⟨⟨i, hlookup⟩, hphase, hd⟩ := hr
  rw [← (hwf.record i r hlookup).latest_gone (by rw [hphase]; rfl) hd]
  exact hwf.latest hlookup

theorem pendingDestroys_latest {s : ServerScopes P} (hwf : s.WellFormed) {d : Destroy}
    (h : d ∈ s.pendingDestroys) : s.Latest (.destroy d) := by
  obtain ⟨r, hr, rfl⟩ := List.mem_map.mp h
  simp only [List.mem_filter, mem_values, Bool.and_eq_true, decide_eq_true_eq] at hr
  obtain ⟨⟨i, hlookup⟩, ⟨-, hd⟩, -⟩ := hr
  rw [← Delivery.latest_destroyed hd]
  exact hwf.latest hlookup

section Emissions
variable [Payload P] {entity : EntityId}

theorem exit_latest {s s' : ServerScopes P} (hwf : s.WellFormed) {e : ScopeExit}
    (h : s.exit entity = (s', .ok e)) : s'.Latest (.exit e) := by
  rcases exit_cases s entity with
    ⟨_, h'⟩ | ⟨_, h'⟩ | ⟨r, hlookup, hentity, hd, ⟨hgone, h'⟩ | ⟨hlive, bytes, h'⟩⟩ <;>
      rw [h'] at h <;> cases h
  · rw [← (hwf.record _ r hlookup).latest_gone hgone hd]
    exact hwf.latest hlookup
  · refine ⟨{ r.withdraw with phase := .leaving, exitSent := false }, ?_, ?_⟩
    · have hindex : r.identity.entity.index = entity.index := by rw [hentity]
      simp [put, Message.index, Message.entity, hindex]
    · simp [Delivery.latest, Delivery.withdraw, hd]

theorem destroy_latest {s s' : ServerScopes P} (hwf : s.WellFormed) {d : Destroy}
    (h : s.destroy entity = (s', .ok d)) : s'.Latest (.destroy d) := by
  rcases destroy_cases s entity with
    ⟨_, h'⟩ | ⟨_, h'⟩ | ⟨r, hlookup, hentity, ⟨hd, h'⟩ | ⟨hlive, bytes, h'⟩⟩ <;>
      rw [h'] at h <;> cases h
  · rw [← hentity, ← Delivery.latest_destroyed hd]
    exact hwf.latest hlookup
  · refine ⟨{ r.withdraw with phase := .leaving, exitSent := false, destroyed := true }, ?_, ?_⟩
    · simp [put, Message.index, Message.entity]
    · simp [Delivery.latest, Delivery.withdraw, put, hentity]

/-- **What is emitted is the latest message of a record**, before the call or after it. -/
theorem call_emits [DecidableEq P] {s : ServerScopes P} (hwf : s.WellFormed) {c : Call P}
    {m : Message P} (h : m ∈ (s.call c).2) : s.Latest m ∨ (s.call c).1.Latest m := by
  cases c with
  | markSent receipt =>
    cases hm : s.markSent receipt with
    | mk s' answer =>
      cases answer with
      | error => simp [call, hm] at h
      | ok =>
        simp only [call, hm, List.mem_map, Option.mem_toList] at h
        obtain ⟨state, hstate, rfl⟩ := h
        exact .inl (state_latest hwf hstate)
  | transmitPending entity send =>
    simp only [call, List.mem_map, Option.mem_toList] at h
    obtain ⟨state, hstate, rfl⟩ := h
    exact .inl (state_latest hwf (pending_state hstate))
  | exit entity =>
    cases hm : s.exit entity with
    | mk s' answer =>
      cases answer with
      | error => simp [call, hm] at h
      | ok e =>
        simp only [call, hm, List.mem_singleton] at h ⊢
        exact .inr (h ▸ exit_latest hwf hm)
  | markExitSent e =>
    rcases markExitSent_cases hwf e with ⟨_, hm⟩ | ⟨r, hlookup, -, hlatest, hm⟩
    · simp [call, hm] at h
    · simp only [call, hm, List.mem_singleton] at h
      rw [h, ← hlatest]
      exact .inl (hwf.latest hlookup)
  | destroy entity =>
    cases hm : s.destroy entity with
    | mk s' answer =>
      cases answer with
      | error => simp [call, hm] at h
      | ok d =>
        simp only [call, hm, List.mem_singleton] at h ⊢
        exact .inr (h ▸ destroy_latest hwf hm)
  | markDestroySent d =>
    rcases markDestroySent_cases s d with ⟨_, hm⟩ | ⟨r, hlookup, -, hlatest, hm⟩
    · simp [call, hm] at h
    · simp only [call, hm, List.mem_singleton] at h
      rw [h, ← hlatest]
      exact .inl (hwf.latest hlookup)
  | report =>
    simp only [call, List.mem_append, List.mem_map] at h
    rcases h with ⟨e, he, rfl⟩ | ⟨d, hd, rfl⟩
    · exact .inl (pendingExits_latest hwf he)
    · exact .inl (pendingDestroys_latest hwf hd)
  | advanceBarrier | offer | acknowledge | acknowledgeExit | acknowledgeDestroy => simp [call] at h

end Emissions
end ServerScopes

/-! ### Runs of a server -/

/-- A server and everything it has put on the wire. -/
structure Feed (P : Type) where
  server : ServerScopes P
  net : List (Message P)

namespace Feed

def step [DecidableEq P] [Payload P] (feed : Feed P) (c : ServerScopes.Call P) : Feed P :=
  ⟨(feed.server.call c).1, feed.net ++ (feed.server.call c).2⟩

structure Ordered (feed : Feed P) : Prop where
  epoch : feed.server.epoch ≠ 0
  wf : feed.server.WellFormed
  valid : ∀ m ∈ feed.net, m.Valid feed.server.epoch
  passed : ∀ m ∈ feed.net, feed.server.Passed m
  coherent : ∀ m ∈ feed.net, ∀ n ∈ feed.net, m.index = n.index → m.Compatible n

variable {connection worldRevision policy : ℕ} {limits : ScopeLimits} {server : ServerScopes P}

/-- A new server has an ordered empty wire. -/
theorem ordered_new {epoch : ℕ}
    (h : ServerScopes.new connection epoch worldRevision policy limits = .ok server) :
    Ordered ⟨server, []⟩ := by
  obtain ⟨hepoch, rfl, hrecords, hnext⟩ := ServerScopes.new_ok h
  refine ⟨hepoch, ⟨by rw [hnext]; exact one_ne_zero, ?_⟩, ?_, ?_, ?_⟩ <;> simp [hrecords]

variable [DecidableEq P] [Payload P]

/-- **A call keeps the wire ordered.** -/
theorem Ordered.step {feed : Feed P} (h : feed.Ordered) (c : ServerScopes.Call P) :
    (feed.step c).Ordered := by
  obtain ⟨hepoch, hwf, hvalid, hpassed, hcoherent⟩ := h
  have hstep := ServerScopes.call_stepped hwf hepoch c
  have hwf' := hstep.wellFormed hwf
  have hout : ∀ m ∈ (feed.server.call c).2,
      feed.server.Latest m ∨ (feed.server.call c).1.Latest m :=
    fun m hm => ServerScopes.call_emits hwf hm
  have hpassed' : ∀ m ∈ (feed.step c).net, (feed.step c).server.Passed m := by
    intro m hm
    rcases List.mem_append.mp hm with hm | hm
    · exact hstep.passed hwf (hpassed m hm)
    · rcases hout m hm with hlatest | hlatest
      · exact hstep.passed hwf hlatest.passed
      · exact hlatest.passed
  -- one of two messages may be assumed to be new
  have hnew : ∀ m ∈ (feed.step c).net, ∀ n ∈ (feed.server.call c).2, m.index = n.index →
      m.Compatible n := by
    intro m hm n hn hindex
    rcases hout n hn with hlatest | hlatest
    · rcases List.mem_append.mp hm with hm | hm
      · exact hlatest.compatible (hpassed m hm) hindex
      · rcases hout m hm with hlatest' | hlatest'
        · exact hlatest.compatible hlatest'.passed hindex
        · refine (hlatest'.compatible (hpassed' n ?_) hindex.symm).symm
          exact List.mem_append_right _ hn
    · exact hlatest.compatible (hpassed' m hm) hindex
  refine ⟨?_, hwf', ?_, hpassed', ?_⟩
  · exact hstep.epoch.symm ▸ hepoch
  · intro m hm
    rcases List.mem_append.mp hm with hm | hm
    · exact hstep.epoch.symm ▸ hvalid m hm
    · rcases hout m hm with hlatest | hlatest
      · exact hstep.epoch.symm ▸ hlatest.valid hwf
      · exact hlatest.valid hwf'
  · intro m hm n hn hindex
    rcases List.mem_append.mp hn with hn' | hn'
    · rcases List.mem_append.mp hm with hm' | hm'
      · exact hcoherent m hm' n hn' hindex
      · exact (hnew n hn m hm' hindex.symm).symm
    · exact hnew m hm n hn' hindex

/-- **The wire of every run of a server is ordered**, and the epoch stays. -/
theorem ordered_run {epoch : ℕ}
    (h : ServerScopes.new connection epoch worldRevision policy limits = .ok server)
    (calls : List (ServerScopes.Call P)) :
    (run step ⟨server, []⟩ calls).Ordered ∧ (run step ⟨server, []⟩ calls).server.epoch = epoch := by
  refine run_invariant (I := fun feed : Feed P => feed.Ordered ∧ feed.server.epoch = epoch)
    (fun feed c hfeed => ⟨hfeed.1.step c, ?_⟩) ⟨ordered_new h, (ServerScopes.new_ok h).2.1⟩ calls
  exact (ServerScopes.call_stepped hfeed.1.wf hfeed.1.epoch c).epoch.trans hfeed.2

end Feed
end Net
