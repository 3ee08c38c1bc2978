import Discordium.Lib.Maps
import Discordium.Lib.Register
import Discordium.Net.Replication.Client

/-!
# Net — Replication — Messages

The messages from a server to a client and what they mean.  A full state, an exit and a destruction
of one entity index are ordered by `Message.key`: first the generation, then destruction, then the
scope, then its closing, then the snapshot.  Abstractly a client is one last-writer-wins register
per index under this order, and `ClientScopes.apply` refines it: a well-formed message that is
compatible with the record of its index either replaces the record, or is at or below it and changes
nothing, or is refused for room or content.
-/

namespace Net
open Lib
open Std (ExtTreeMap)

variable {P : Type}

inductive Message (P : Type) where
  | full (state : FullState P)
  | exit (exit : ScopeExit)
  | destroy (destroy : Destroy)
  deriving DecidableEq

/-- What a client answers to an applied message. -/
inductive Ack where
  | state (receipt : StateReceipt)
  | exit (exit : ScopeExit)
  | destroy (destroy : Destroy)
  deriving DecidableEq

/-! ### The order of messages -/

/-- Fences of one entity index, in lexicographic order. -/
abbrev Key := ℕ ×ₗ ℕ ×ₗ ℕ ×ₗ ℕ ×ₗ ℕ

def fenceKey (generation destroyed scope closed snapshot : ℕ) : Key :=
  toLex (generation, toLex (destroyed, toLex (scope, toLex (closed, snapshot))))

variable {g d s c n g' d' s' c' n' : ℕ}

theorem fenceKey_le :
    fenceKey g d s c n ≤ fenceKey g' d' s' c' n' ↔
      g < g' ∨ g = g' ∧ (d < d' ∨ d = d' ∧ (s < s' ∨ s = s' ∧ (c < c' ∨ c = c' ∧ n ≤ n'))) := by
  simp only [fenceKey, Prod.Lex.toLex_le_toLex]

theorem fenceKey_lt :
    fenceKey g d s c n < fenceKey g' d' s' c' n' ↔
      g < g' ∨ g = g' ∧ (d < d' ∨ d = d' ∧ (s < s' ∨ s = s' ∧ (c < c' ∨ c = c' ∧ n < n'))) := by
  simp only [fenceKey, Prod.Lex.toLex_lt_toLex]

theorem fenceKey_inj :
    fenceKey g d s c n = fenceKey g' d' s' c' n' ↔
      g = g' ∧ d = d' ∧ s = s' ∧ c = c' ∧ n = n' := by
  simp only [fenceKey, EmbeddingLike.apply_eq_iff_eq, Prod.mk.injEq]

namespace Message

def entity : Message P → EntityId
  | full state => state.scope.entity
  | exit e => e.scope.entity
  | destroy d => d.entity

def index (m : Message P) : ℕ := m.entity.index

def key : Message P → Key
  | full state => fenceKey state.scope.entity.generation 0 state.scope.scope 0 state.snapshot
  | exit e => fenceKey e.scope.entity.generation 0 e.scope.scope 1 0
  | destroy d => fenceKey d.entity.generation 1 0 0 0

/-- The record a message leaves when it is written. -/
def replica : Message P → Replica P
  | full state => ⟨state.scope, false, false, some state⟩
  | exit e => ⟨e.scope, true, false, none⟩
  | destroy d => ⟨ClientScopes.destroyScope d, true, true, none⟩

def ack : Message P → Ack
  | full state => .state state.receipt
  | exit e => .exit e
  | destroy d => .destroy d

/-- The scope a message names; a destruction names none. -/
def scope? : Message P → Option ScopeIdentity
  | full state => some state.scope
  | exit e => some e.scope
  | destroy _ => none

/-- A well-formed message of a connection. -/
def Valid (connection : ℕ) : Message P → Prop
  | full state => state.validateIdentity connection = none
  | exit e => validateScope e.scope connection = none
  | destroy d => d.connection = connection ∧ d.entity.generation ≠ 0

/-- Two messages of one index agree: a scope epoch of a generation names one scope, and within a
scope the metadata grows with the snapshots. -/
structure Compatible (m n : Message P) : Prop where
  scope : ∀ a b, m.scope? = some a → n.scope? = some b → a.entity = b.entity → a.scope = b.scope →
    a = b
  same : ∀ f g, m = .full f → n = .full g → f.scope = g.scope → f.snapshot = g.snapshot → f = g
  older : ∀ f g, m = .full f → n = .full g → f.scope = g.scope → f.snapshot < g.snapshot →
    f.version < g.version ∧ f.endTick ≤ g.endTick ∧ f.baselineGeneration ≤ g.baselineGeneration
  newer : ∀ f g, m = .full f → n = .full g → f.scope = g.scope → g.snapshot < f.snapshot →
    g.version < f.version ∧ g.endTick ≤ f.endTick ∧ g.baselineGeneration ≤ f.baselineGeneration

variable {m n : Message P}

theorem Compatible.symm (h : Compatible m n) : Compatible n m where
  scope a b ha hb he hs := (h.scope b a hb ha he.symm hs.symm).symm
  same f g hf hg hs hn := (h.same g f hg hf hs.symm hn.symm).symm
  older f g hf hg hs hn := h.newer g f hg hf hs.symm hn
  newer f g hf hg hs hn := h.older g f hg hf hs.symm hn

/-- Compatible messages of one index and one connection with the same key are one message. -/
theorem Compatible.eq_of_key {connection : ℕ} (h : Compatible m n) (hm : m.Valid connection)
    (hn : n.Valid connection) (hindex : m.index = n.index) (hkey : m.key = n.key) : m = n := by
  cases m with
  | full f =>
    cases n with
    | full g =>
      obtain ⟨hgen, -, hscope, -, hsnap⟩ := fenceKey_inj.mp hkey
      have hid := h.scope _ _ rfl rfl (EntityId.ext hindex hgen) hscope
      exact congrArg full (h.same f g rfl rfl hid hsnap)
    | exit e => exact absurd (fenceKey_inj.mp hkey).2.2.2.1 (by decide)
    | destroy d => exact absurd (fenceKey_inj.mp hkey).2.1 (by decide)
  | exit e =>
    cases n with
    | full g => exact absurd (fenceKey_inj.mp hkey).2.2.2.1 (by decide)
    | exit e' =>
      obtain ⟨hgen, -, hscope, -, -⟩ := fenceKey_inj.mp hkey
      have hid := h.scope _ _ rfl rfl (EntityId.ext hindex hgen) hscope
      exact congrArg (fun scope => exit ⟨scope⟩) hid
    | destroy d => exact absurd (fenceKey_inj.mp hkey).2.1 (by decide)
  | destroy d =>
    cases n with
    | full g => exact absurd (fenceKey_inj.mp hkey).2.1 (by decide)
    | exit e => exact absurd (fenceKey_inj.mp hkey).2.1 (by decide)
    | destroy d' =>
      have hentity : d.entity = d'.entity := EntityId.ext hindex (fenceKey_inj.mp hkey).1
      have hconnection : d.connection = d'.connection := hm.1.trans hn.1.symm
      cases d
      cases d'
      simp_all only

end Message

/-! ### The client as a register -/

namespace Replica

/-- The fence a record stands for. -/
def key (r : Replica P) : Key :=
  if r.destroyed then fenceKey r.scope.entity.generation 1 0 0 0
  else if r.closed then fenceKey r.scope.entity.generation 0 r.scope.scope 1 0
  else fenceKey r.scope.entity.generation 0 r.scope.scope 0 (r.state.elim 0 (·.snapshot))

end Replica

@[simp] theorem Message.replica_key (m : Message P) : m.replica.key = m.key := by
  cases m <;> rfl

namespace ClientScopes

/-- The errors that report a lack of room. -/
def NoRoom (error : ReplicationError) : Prop := error = .resetRequired ∨ error = .capacity

section Fences
variable [DecidableEq P] {state previous : FullState P} {old : Message P}

section
variable (hc : (Message.full previous).Compatible (.full state)) (hs : previous.scope = state.scope)
include hc hs

/-- A later snapshot of the scope passes the watermarks of an earlier one. -/
theorem checkPublication_newer
    (hlt : previous.snapshot < state.snapshot) : checkPublication state previous = none := by
  obtain ⟨hversion, htick, hbaseline⟩ := hc.older _ _ rfl rfl hs hlt
  simp only [checkPublication]
  rw [if_neg (by omega), if_neg (by omega), if_neg (by omega), if_neg (by omega)]

/-- An earlier snapshot of the scope does not. -/
theorem checkPublication_older
    (hlt : state.snapshot < previous.snapshot) : checkPublication state previous ≠ none := by
  obtain ⟨hversion, htick, hbaseline⟩ := hc.newer _ _ rfl rfl hs hlt
  simp only [checkPublication]
  rw [if_neg (by omega), if_neg (by omega), if_pos (by omega)]
  simp

end

/-- The fences compare keys: they hold back what the record is at or past. -/
theorem key_le_of_checkFence
    (hc : old.Compatible (.full state)) (hindex : old.index = state.scope.entity.index)
    (h : checkFence state old.replica ≠ none) : (Message.full state).key ≤ old.key := by
  cases old with
  | full previous =>
    simp only [Message.key, fenceKey_le]
    by_cases hid : previous.scope = state.scope
    · -- one scope: the snapshots decide
      have hle : state.snapshot ≤ previous.snapshot := by
        by_contra hlt
        refine h ?_
        simp [checkFence, Message.replica, hid, checkPublication_newer hc hid (by omega)]
      simp [hid, hle]
    · -- different scopes of the index: the generation or the scope epoch decides
      have hne : previous.scope.entity.generation = state.scope.entity.generation →
          previous.scope.scope ≠ state.scope.scope := fun hg hs =>
        hid (hc.scope _ _ rfl rfl (EntityId.ext hindex hg) hs)
      simp only [checkFence, Message.replica] at h
      split_ifs at h <;> simp_all
  | exit e =>
    simp only [Message.key, fenceKey_le]
    simp only [checkFence, Message.replica] at h
    split_ifs at h <;> simp_all
  | destroy d =>
    simp only [Message.key, fenceKey_le]
    simp only [checkFence, Message.replica, destroyScope] at h
    split_ifs at h <;> simp_all

/-- The fences compare keys: what passes is at or past the record. -/
theorem key_ge_of_checkFence
    (hc : old.Compatible (.full state)) (h : checkFence state old.replica = none) :
    old.key ≤ (Message.full state).key := by
  cases old with
  | full previous =>
    simp only [Message.key, fenceKey_le]
    simp only [checkFence, Message.replica] at h
    split_ifs at h with h₁ h₂ h₃ h₄ h₅ h₆
    · have hid : previous.scope = state.scope := by simp_all
      have hle : previous.snapshot ≤ state.snapshot := by
        by_contra hlt
        exact checkPublication_older hc hid (by omega) h
      simp [hid, hle]
    · simp_all
      omega
    · omega
  | exit e =>
    simp only [Message.key, fenceKey_le]
    simp only [checkFence, Message.replica] at h
    split_ifs at h <;> simp_all <;> omega
  | destroy d =>
    simp only [Message.key, fenceKey_le]
    simp only [checkFence, Message.replica, destroyScope] at h
    split_ifs at h
    · simp_all
    · omega

end Fences

variable {e : ScopeExit} {old : Message P}

/-- What an exit finds fenced is at or past it; it is acknowledged or called a conflict. -/
theorem checkExit_some {answer : Except ReplicationError ScopeExit} (hc : old.Compatible (.exit e))
    (hindex : old.index = e.scope.entity.index) (h : checkExit e old.replica = some answer) :
    (Message.exit e : Message P).key ≤ old.key ∧ (answer = .ok e ∨ answer = .error .conflict) := by
  -- a record under the exit's own scope epoch is under its scope
  have hsame : ∀ scope, old.scope? = some scope →
      e.scope.entity.generation = scope.entity.generation → e.scope.scope = scope.scope →
      e.scope = scope := by
    intro scope hscope hg hs
    have hi : scope.entity.index = e.scope.entity.index := by
      cases old <;> simp_all [Message.scope?, Message.index, Message.entity]
    exact (hc.scope _ _ hscope rfl (EntityId.ext hi hg.symm) hs.symm).symm
  simp only [checkExit] at h
  refine ⟨?_, by split_ifs at h <;> simp_all⟩
  cases old with
  | full previous =>
    simp only [Message.key, fenceKey_le, Message.replica, Message.scope?, Option.some.injEq,
      forall_eq'] at h hsame ⊢
    split_ifs at h <;> simp_all
  | exit e' =>
    simp only [Message.key, fenceKey_le, Message.replica, Message.scope?, Option.some.injEq,
      forall_eq'] at h hsame ⊢
    split_ifs at h with h₁ h₂
    · simp only [lt_self_iff_false, true_and, false_or]
      omega
    · exact absurd (hsame h₂.1 h₂.2.1) h₂.2.2
    · simp_all
  | destroy d =>
    simp only [Message.key, fenceKey_le, Message.replica, destroyScope] at h ⊢
    split_ifs at h <;> simp_all
    omega

/-- An exit that nothing fences is at or past the record. -/
theorem checkExit_none (h : checkExit e old.replica = none) :
    old.key ≤ (Message.exit e : Message P).key := by
  simp only [checkExit] at h
  split_ifs at h with h₁ h₂ h₃
  clear h₂
  cases old with
  | full previous =>
    simp only [Message.key, fenceKey_le, Message.replica, lt_self_iff_false, true_and, false_or,
      zero_lt_one, true_or, and_true] at h₁ ⊢
    omega
  | exit e' =>
    simp only [Message.key, fenceKey_le, Message.replica, lt_self_iff_false, true_and, false_or,
      le_refl, and_true] at h₁ ⊢
    omega
  | destroy d =>
    simp only [Message.key, fenceKey_le, Message.replica, destroyScope, true_and] at h₁ h₃ ⊢
    omega

theorem new_ok {connection : ℕ} {limits : ScopeLimits} {client : ClientScopes P}
    (h : new connection limits = .ok client) :
    client.records = ∅ ∧ client.connection = connection := by
  simp only [new] at h
  split_ifs at h
  cases hl : limits.validate <;> simp only [hl, Except.map, reduceCtorEq, Except.ok.injEq] at h
  subst h
  exact ⟨rfl, rfl⟩

section Apply
variable [DecidableEq P] [Payload P]

/-- One message of any kind, with the callback that checks payloads. -/
def apply (client : ClientScopes P) (m : Message P) (validate : P → Bool) :
    ClientScopes P × Except ReplicationError Ack :=
  match m with
  | .full state => (client.applyFull state validate).map id (Except.map .state)
  | .exit e => (client.applyExit e).map id (Except.map .exit)
  | .destroy d => (client.applyDestroy d).map id (Except.map .destroy)

/-- What a message does to a client whose record of its index was left by `w`. -/
inductive Applied (client : ClientScopes P) (w : Option (Message P)) (m : Message P)
    (validate : P → Bool) : ClientScopes P × Except ReplicationError Ack → Prop where
  /-- There is no room for it. -/
  | full (error : ReplicationError) (h : NoRoom error) :
      Applied client w m validate (client, .error error)
  /-- The callback rejects its payload. -/
  | invalid (state : FullState P) (hm : m = .full state) (h : validate state.payload = false) :
      Applied client w m validate (client, .error .invalidPayload)
  /-- The record is at or past it. -/
  | fenced (old : Message P) (hw : w = some old) (hle : m.key ≤ old.key)
      (answer : Except ReplicationError Ack)
      (hok : ∀ ack, answer = .ok ack → ack = m.ack) : Applied client w m validate (client, answer)
  /-- It replaces the record. -/
  | written (bytes : ℕ) (hle : ∀ old, w = some old → old.key ≤ m.key)
      (hvalid : ∀ state, m = .full state → validate state.payload = true) :
      Applied client w m validate
        ({ client with records := client.records.insert m.index m.replica, bytes }, .ok m.ack)

variable {client : ClientScopes P} {w : Option (Message P)}

omit [DecidableEq P] [Payload P] in
theorem capacityFor_some {index : ℕ} {error : ReplicationError}
    (h : client.capacityFor index = some error) : NoRoom error := by
  simp only [capacityFor] at h
  split_ifs at h
  exact .inl (Option.some.inj h).symm

/-- The record of an index as the message that left it. -/
def LeftBy (client : ClientScopes P) (w : Option (Message P)) (m : Message P) : Prop :=
  client.records[m.index]? = w.map Message.replica ∧
    ∀ old, w = some old → old.index = m.index ∧ old.Compatible m

theorem applyFull_applied {state : FullState P}
    (validate : P → Bool) (hvalid : state.validateIdentity client.connection = none)
    (hw : client.LeftBy w (.full state)) :
    Applied client w (.full state) validate (client.apply (.full state) validate) := by
  obtain ⟨hrecord, hw⟩ := hw
  simp only [apply, applyFull, hvalid]
  cases hcap : client.capacityFor state.scope.entity.index with
  | some error => exact .full error (capacityFor_some hcap)
  | none =>
    by_cases hsize : client.limits.payloadBytes < Payload.retainedBytes state.payload
    · rw [if_pos hsize]
      exact .full .capacity (.inr rfl)
    cases hcheck : validate state.payload with
    | false =>
      simp only [if_neg hsize]
      exact .invalid state rfl hcheck
    | true =>
    simp only [if_neg hsize, Bool.not_true, Bool.false_eq_true, if_false]
    cases hfence : client.records[state.scope.entity.index]?.bind (checkFence state) with
    | some error =>
      obtain ⟨replica, hreplica, herror⟩ := Option.bind_eq_some_iff.mp hfence
      obtain ⟨old, rfl, rfl⟩ := Option.map_eq_some_iff.mp (hrecord.symm.trans hreplica)
      obtain ⟨hindex, hc⟩ := hw old rfl
      exact .fenced old rfl (key_le_of_checkFence hc hindex (by simp [herror])) _
        (by simp [Except.map])
    | none =>
      have hle : ∀ old, w = some old → old.key ≤ (Message.full state).key := by
        rintro old rfl
        have hold : client.records[state.scope.entity.index]? = some old.replica := hrecord
        rw [hold] at hfence
        exact key_ge_of_checkFence (hw old rfl).2 hfence
      dsimp only
      cases hbytes : (checkedSub client.bytes
          (publishedBytes client.records[state.scope.entity.index]?)).bind
            (checkedAdd 64 · (Payload.retainedBytes state.payload)) with
      | none => exact .full .capacity (.inr rfl)
      | some bytes =>
        dsimp only
        split_ifs
        · exact .full .capacity (.inr rfl)
        · exact .written bytes hle (by rintro _ ⟨rfl⟩; exact hcheck)

theorem applyExit_applied {e : ScopeExit} (validate : P → Bool)
    (hvalid : validateScope e.scope client.connection = none) (hw : client.LeftBy w (.exit e)) :
    Applied client w (.exit e) validate (client.apply (.exit e) validate) := by
  obtain ⟨hrecord, hw⟩ := hw
  simp only [apply, applyExit, hvalid]
  cases hcap : client.capacityFor e.scope.entity.index with
  | some error => exact .full error (capacityFor_some hcap)
  | none =>
    dsimp only
    cases hfence : client.records[e.scope.entity.index]?.bind (checkExit e) with
    | some answer =>
      obtain ⟨replica, hreplica, hanswer⟩ := Option.bind_eq_some_iff.mp hfence
      obtain ⟨old, rfl, rfl⟩ := Option.map_eq_some_iff.mp (hrecord.symm.trans hreplica)
      obtain ⟨hindex, hc⟩ := hw old rfl
      obtain ⟨hle, hcases⟩ := checkExit_some hc hindex hanswer
      refine .fenced old rfl hle _ ?_
      rcases hcases with rfl | rfl <;> simp [Except.map, Message.ack]
    | none =>
      refine .written _ ?_ (by simp)
      rintro old rfl
      have hold : client.records[e.scope.entity.index]? = some old.replica := hrecord
      rw [hold] at hfence
      exact checkExit_none hfence

theorem applyDestroy_applied {d : Destroy}
    (validate : P → Bool) (hvalid : d.connection = client.connection ∧ d.entity.generation ≠ 0)
    (hw : client.LeftBy w (.destroy d)) :
    Applied client w (.destroy d) validate (client.apply (.destroy d) validate) := by
  obtain ⟨hrecord, -⟩ := hw
  have hrecord : client.records[d.entity.index]? = w.map Message.replica := hrecord
  simp only [apply, applyDestroy, hvalid.1, hvalid.2, ne_eq, not_true_eq_false, if_false]
  cases hcap : client.capacityFor d.entity.index with
  | some error => exact .full error (capacityFor_some hcap)
  | none =>
    dsimp only
    rw [hrecord]
    cases w with
    | none => exact .written _ (by simp) (by simp)
    | some old =>
      have hgeneration : old.replica.scope.entity.generation = old.entity.generation := by
        cases old <;> rfl
      by_cases hlt : d.entity.generation < old.entity.generation
      · simp only [Option.map_some, Option.any_some, hgeneration, hlt, decide_true, if_true]
        refine .fenced old rfl ?_ _ (by simp [Except.map, Message.ack])
        cases old <;> exact fenceKey_le.mpr (.inl hlt)
      · simp only [Option.map_some, Option.any_some, hgeneration, hlt, decide_false]
        refine .written _ ?_ (by simp)
        rintro old' ⟨rfl⟩
        have hle : old.entity.generation ≤ d.entity.generation := not_lt.mp hlt
        cases old <;> simpa [Message.key, fenceKey_le, ← le_iff_lt_or_eq, Message.entity] using hle

/-- **The client refines the registers.**  A well-formed message whose index was last written by a
compatible one replaces the record, or is at or below it, or is refused. -/
theorem apply_applied {m : Message P}
    (validate : P → Bool) (hvalid : m.Valid client.connection) (hw : client.LeftBy w m) :
    Applied client w m validate (client.apply m validate) := by
  cases m with
  | full state => exact applyFull_applied validate hvalid hw
  | exit e => exact applyExit_applied validate hvalid hw
  | destroy d => exact applyDestroy_applied validate hvalid hw

end Apply
end ClientScopes
end Net
