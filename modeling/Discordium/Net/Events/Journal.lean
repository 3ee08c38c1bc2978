import Discordium.Lib.Fallible
import Discordium.Net.Replication.Types

/-!
# Net — Events — Journal

The journal of presentation events, as `events/model.rs` and `events/journal.rs` have it.  An entry
lives under its event key from the first time a replay, a decision or an expiry names it until the
command of its action is retired.  Every call but `retireThrough` works on a staged copy and returns
the changes a renderer has to make; the copy replaces the journal only when the whole call succeeds.

The sorted vectors of the source are ordered maps here, so an index into the entries is the key of
the entry.  What the allocator answers to the reservation of a call is the argument `memory`.
-/

namespace Net.Events
open Lib
open Std (ExtTreeMap ExtTreeSet)

/-! ### Identities and records -/

structure JournalScope where
  connection : ℕ
  stream : ℕ
  deriving DecidableEq

/-- Scopes are compared by connection, then by stream. -/
instance : LE JournalScope where
  le a b := a.connection < b.connection ∨ a.connection = b.connection ∧ a.stream ≤ b.stream

instance (a b : JournalScope) : Decidable (a ≤ b) :=
  inferInstanceAs (Decidable (_ ∨ _ ∧ _))

structure EventKey where
  action : ActionKey
  kind : ℕ
  spawnOrdinal : ℕ
  deriving DecidableEq

namespace EventKey

/-- The fields in the order they are compared in. -/
def path (key : EventKey) : List ℕ := key.action.path ++ [key.kind, key.spawnOrdinal]

theorem path_injective : Function.Injective path := by
  rintro ⟨⟨⟩, _, _⟩ ⟨⟨⟩, _, _⟩ h
  simpa [path, ActionKey.path, and_assoc] using h

instance : Ord EventKey := ⟨compareOn path⟩

instance : Std.TransOrd EventKey := inferInstanceAs (Std.TransCmp (compareOn path))

instance : Std.LawfulEqOrd EventKey := lawfulEqCmp_compareOn path_injective

end EventKey

structure EventIdentity where
  key : EventKey
  originTick : ℕ
  schema : ℕ
  deriving DecidableEq

/-- A `simulationOwned` object is retired by its simulation and never by the passing of ticks; a
`oneShot` cue is delivered once, and its absence cannot unplay it. -/
inductive Delivery where
  | reversible
  | simulationOwned
  | oneShot
  deriving DecidableEq

structure EventRecord (P : Type) where
  identity : EventIdentity
  expiresAt : ℕ
  delivery : Delivery
  payload : P
  deriving DecidableEq

def EventRecord.key {P : Type} (event : EventRecord P) : EventKey := event.identity.key

/-- A range of origin ticks, both ends included. -/
structure ReplayRange where
  first : ℕ
  last : ℕ

inductive Outcome where
  | accepted (binding : Option EntityId)
  | rejected

inductive Decision where
  | unresolved
  | accepted
  | rejected
  deriving DecidableEq

inductive Phase where
  | unseen
  | live
  | replayAbsent
  | expired
  | rejected
  deriving DecidableEq

inductive CancelReason where
  | replayAbsent
  | rejected
  | expired
  deriving DecidableEq

inductive Change (P : Type) where
  | create (event : EventRecord P) (committed : Bool) (binding : Option EntityId)
  | update (event : EventRecord P)
  | cancel (key : EventKey) (reason : CancelReason)
  | confirm (key : EventKey)
  | bind (key : EventKey) (entity : EntityId)
  /-- Records an authoritative identity only: the visual stays retired. -/
  | bindRetired (key : EventKey) (entity : EntityId)
  | reset (previous current : JournalScope)
  deriving DecidableEq

structure Limits where
  records : ℕ
  bindings : ℕ
  actionFences : ℕ
  payloadBytes : ℕ
  residentBytes : ℕ
  transitions : ℕ
  transitionBytes : ℕ
  peakBytes : ℕ
  historyTicks : ℕ
  lifetimeTicks : ℕ

/-- `Limits::default()`. -/
def Limits.default : Limits where
  records := 2048
  bindings := 2048
  actionFences := 2048
  payloadBytes := 16 * 1024
  residentBytes := 4 * 1024 * 1024
  transitions := 1024
  transitionBytes := 2 * 1024 * 1024
  peakBytes := 11 * 1024 * 1024
  historyTicks := 256
  lifetimeTicks := 4096

inductive EventError where
  | invalidConfiguration
  | invalidIdentity
  | invalidPayload
  | wrongScope
  | stale
  | outsideHistory
  | duplicateKey
  | conflict
  | unknown
  | capacity
  | resetRequired
  | liveHistory
  deriving DecidableEq

/-- The sizes of the stored types, `size_of`. -/
class Layout (P : Type) where
  entry : ℕ
  binding : ℕ
  actionKey : ℕ
  change : ℕ

/-- The sizes of a journal of byte payloads. -/
instance bytesLayout : Layout (List UInt8) := ⟨112, 48, 24, 112⟩

/-! ### The journal -/

structure Lifetime where
  expires : ℕ
  delivery : Delivery
  deriving DecidableEq

structure Entry (P : Type) where
  identity : EventIdentity
  lifetime : Option Lifetime
  payload : Option P
  phase : Phase
  decision : Decision
  delivered : Bool
  binding : Option EntityId

/-- The entry of an identity that nothing has been said about. -/
def Entry.unseen {P : Type} (identity : EventIdentity) : Entry P :=
  { identity, lifetime := none, payload := none, phase := .unseen, decision := .unresolved
    delivered := false, binding := none }

/-- A renderer holds the event: it is live, and not a cue. -/
def Entry.held {P : Type} (entry : Entry P) : Bool :=
  entry.phase = .live ∧ entry.lifetime.any (·.delivery ≠ .oneShot)

structure Binding where
  entity : EntityId
  key : EventKey

structure EventJournal (P : Type) where
  scope : JournalScope
  limits : Limits
  now : ℕ
  retired : ℕ
  /-- The entries by their event key. -/
  entries : ExtTreeMap EventKey (Entry P)
  keyed : ∀ (key : EventKey) (entry : Entry P), entries[key]? = some entry →
    entry.identity.key = key
  bindings : ExtTreeMap ℕ Binding
  rejectedActions : ExtTreeSet ActionKey

namespace EventJournal
variable {P : Type}

section sizes
variable [Layout P]

/-- The storage of the tables, nothing when it overflows. -/
def metadata (P : Type) [Layout P] (limits : Limits) : Option ℕ :=
  (checkedMul 64 limits.records (Layout.entry P)).bind fun entries =>
    (checkedMul 64 limits.bindings (Layout.binding P)).bind fun bindings =>
      (checkedAdd 64 entries bindings).bind fun n =>
        (checkedMul 64 limits.actionFences (Layout.actionKey P)).bind fun fences =>
          checkedAdd 64 n fences

/-- The working allowance of a call, nothing when it overflows. -/
def peak (limits : Limits) : Option ℕ :=
  (checkedMul 64 limits.residentBytes 2).bind fun n =>
    (checkedAdd 64 n limits.transitionBytes).bind fun n => checkedAdd 64 n limits.payloadBytes

/-- The limits are refused: a zero, an overflow, or a table that does not fit its allowance. -/
def invalidLimits (P : Type) [Layout P] (limits : Limits) : Bool :=
  [limits.records, limits.bindings, limits.actionFences, limits.payloadBytes,
      limits.transitions].contains 0
    || limits.historyTicks = 0 || limits.lifetimeTicks = 0
    || (metadata P limits).all
      (fun n => limits.residentBytes < n || limits.residentBytes - n < limits.payloadBytes)
    || (checkedMul 64 limits.transitions (Layout.change P)).all
      (fun n => limits.transitionBytes < n || limits.transitionBytes - n < limits.payloadBytes)
    || (peak limits).all (limits.peakBytes < ·)

def new (memory : Bool) (scope : JournalScope) (limits : Limits) :
    Except EventError (EventJournal P) :=
  if scope.connection = 0 ∨ scope.stream = 0 then .error .invalidIdentity
  else if invalidLimits P limits then .error .invalidConfiguration
  else if !memory then .error .capacity
  else
    .ok
      { scope, limits, now := 0, retired := 0, entries := ∅, keyed := by simp, bindings := ∅
        rejectedActions := ∅ }

/-- `retained_bytes`: the reserved tables and the payloads of the entries. -/
def retainedBytes [Payload P] (journal : EventJournal P) : ℕ :=
  journal.limits.records * Layout.entry P + journal.limits.bindings * Layout.binding P
    + journal.limits.actionFences * Layout.actionKey P
    + (((values journal.entries).filterMap (·.payload)).map Payload.retainedBytes).sum

def checkResident [Payload P] (journal : EventJournal P) : Except EventError Unit :=
  if journal.limits.residentBytes < journal.retainedBytes then .error .capacity else .ok ()

end sizes

def validAction (journal : EventJournal P) (action : ActionKey) : Except EventError Unit :=
  if action.connection ≠ journal.scope.connection ∨ action.stream ≠ journal.scope.stream then
    .error .wrongScope
  else if action.command = 0 then .error .invalidIdentity
  else if action.command ≤ journal.retired then .error .stale
  else .ok ()

def validIdentity (journal : EventJournal P) (identity : EventIdentity) : Except EventError Unit :=
  (journal.validAction identity.key.action).bind fun _ =>
    if identity.key.kind = 0 ∨ identity.schema = 0 ∨ journal.now < identity.originTick then
      .error .invalidIdentity
    else if journal.entries[identity.key]?.any (·.identity ≠ identity) then .error .conflict
    else .ok ()

def setEntry (journal : EventJournal P) (entry : Entry P) : EventJournal P :=
  { journal with
    entries := journal.entries.insert entry.identity.key entry
    keyed := fun key found h => by
      rw [lookup_insert] at h
      split at h
      · cases h
        assumption
      · exact journal.keyed key found h }

def setBinding (journal : EventJournal P) (binding : Binding) : EventJournal P :=
  { journal with bindings := journal.bindings.insert binding.entity.index binding }

def fence (journal : EventJournal P) (action : ActionKey) : EventJournal P :=
  { journal with rejectedActions := journal.rejectedActions.insert action }

end EventJournal

/-! ### Staged calls -/

/-- The staged copy of a call and the changes it has emitted so far. -/
structure Staged (P : Type) where
  journal : EventJournal P
  changes : List (Change P)
  payloadBytes : ℕ

namespace Staged
variable {P : Type}

/-- The storage of the payload a change carries. -/
def changeBytes [Payload P] : Change P → ℕ
  | .create event _ _ | .update event => Payload.retainedBytes event.payload
  | _ => 0

def setEntry (staged : Staged P) (entry : Entry P) : Staged P :=
  { staged with journal := staged.journal.setEntry entry }

def setNow (staged : Staged P) (now : ℕ) : Except EventError (Staged P) :=
  if now < staged.journal.now then .error .stale
  else .ok { staged with journal := { staged.journal with now } }

/-- The entry of an identity, made when there is none. -/
def entry (staged : Staged P) (identity : EventIdentity) : Except EventError (Staged P × Entry P) :=
  (staged.journal.validIdentity identity).bind fun _ =>
    match staged.journal.entries[identity.key]? with
    | some entry => .ok (staged, entry)
    | none =>
      if staged.journal.limits.records ≤ staged.journal.entries.size then .error .resetRequired
      else .ok (staged.setEntry (.unseen identity), .unseen identity)

variable [Payload P] [Layout P]

def emit (staged : Staged P) (change : Change P) : Except EventError (Staged P) :=
  let bytes := changeBytes change
  let retained := staged.journal.limits.transitions * Layout.change P + staged.payloadBytes
  if staged.journal.limits.transitions ≤ staged.changes.length ∨
      (checkedAdd 64 retained bytes).all (staged.journal.limits.transitionBytes < ·) then
    .error .capacity
  else
    .ok { staged with
          changes := staged.changes ++ [change], payloadBytes := staged.payloadBytes + bytes }

def cancel (staged : Staged P) (entry : Entry P) (phase : Phase) (reason : CancelReason) :
    Except EventError (Staged P) :=
  (if entry.held then staged.emit (.cancel entry.identity.key reason) else .ok staged).map
    (·.setEntry { entry with phase, payload := none })

/-- A loop over the entries, which its rounds change but do not add to. -/
def forEntries (staged : Staged P) (round : Staged P → Entry P → Except EventError (Staged P)) :
    Except EventError (Staged P) :=
  loop (fun staged key =>
    match staged.journal.entries[key]? with
    | some entry => round staged entry
    | none => .ok staged) staged staged.journal.entries.keys

/-- The entry expires at `now`: it is not confirmed, its lifetime is over, and no simulation owns
it. -/
def due (now : ℕ) (entry : Entry P) : Bool :=
  entry.decision ≠ .accepted ∧ (entry.phase = .live ∨ entry.phase = .replayAbsent) ∧
    entry.lifetime.any fun life => life.delivery ≠ .simulationOwned ∧ life.expires ≤ now

def advanceInner (staged : Staged P) (now : ℕ) : Except EventError (Staged P) :=
  (staged.setNow now).bind fun staged =>
    staged.forEntries fun staged entry =>
      if due now entry then staged.cancel entry .expired .expired else .ok staged

/-! ### Replay -/

/-- The last part of a round of `reconcile`: the event is made live. -/
def present [BEq P] (staged : Staged P) (event : EventRecord P) (entry : Entry P) :
    Except EventError (Staged P) :=
  let create := entry.phase ≠ .live ∧ (!entry.delivered ∨ event.delivery ≠ .oneShot)
  let changed := entry.payload != some event.payload
  let staged := staged.setEntry
    { entry with payload := some event.payload, phase := .live, delivered := true }
  staged.journal.checkResident.bind fun _ =>
    if create then staged.emit (.create event (entry.decision = .accepted) entry.binding)
    else if changed ∧ (event.delivery ≠ .oneShot ∨ entry.phase = .live) then
      staged.emit (.update event)
    else .ok staged

/-- What becomes of an event whose entry has its lifetime. -/
def replay [BEq P] (now : ℕ) (staged : Staged P) (event : EventRecord P) (entry : Entry P) :
    Except EventError (Staged P) :=
  if staged.journal.rejectedActions.contains event.key.action then
    staged.cancel { entry with decision := .rejected } .rejected .rejected
  else if entry.phase = .expired ∨ entry.phase = .rejected ∨
      (entry.phase = .replayAbsent ∧ entry.decision = .accepted) then .ok staged
  else if event.delivery ≠ .simulationOwned ∧ event.expiresAt ≤ now ∧ entry.phase ≠ .live then
    staged.cancel entry .expired .expired
  else staged.present event entry

/-- A round of the first loop of `reconcile`, after the events of `before`. -/
def replayEvent [BEq P] (now : ℕ) (range : ReplayRange) (validate : P → Bool)
    (before : List EventKey) (staged : Staged P) (event : EventRecord P) :
    Except EventError (Staged P) :=
  (staged.journal.validIdentity event.identity).bind fun _ =>
    if event.key ∈ before then .error .duplicateKey
    else if event.identity.originTick < range.first ∨ range.last < event.identity.originTick ∨
        event.expiresAt ≤ event.identity.originTick ∨
        staged.journal.limits.lifetimeTicks < event.expiresAt - event.identity.originTick then
      .error .invalidIdentity
    else if staged.journal.limits.payloadBytes < Payload.retainedBytes event.payload ∨
        !validate event.payload then .error .invalidPayload
    else (staged.entry event.identity).bind fun (staged, entry) =>
      let life : Lifetime := ⟨event.expiresAt, event.delivery⟩
      if entry.lifetime.any (· ≠ life) then .error .conflict
      else
        let entry := { entry with lifetime := some life }
        (staged.setEntry entry).replay now event entry

def replayEvents [BEq P] (now : ℕ) (range : ReplayRange) (validate : P → Bool) :
    List EventKey → Staged P → List (EventRecord P) → Except EventError (Staged P)
  | _, staged, [] => .ok staged
  | before, staged, event :: events =>
    (staged.replayEvent now range validate before event).bind fun staged =>
      replayEvents now range validate (before ++ [event.key]) staged events

/-- The replay of the range did not repeat the event. -/
def absent (range : ReplayRange) (corrected : List (EventRecord P)) (entry : Entry P) : Bool :=
  entry.phase = .live ∧ entry.decision ≠ .accepted ∧
    (range.first ≤ entry.identity.originTick ∧ entry.identity.originTick ≤ range.last) ∧
    !corrected.any (·.key = entry.identity.key)

def reconcile [BEq P] (now : ℕ) (range : ReplayRange) (corrected : List (EventRecord P))
    (validate : P → Bool) (staged : Staged P) : Except EventError (Staged P) :=
  (staged.advanceInner now).bind fun staged =>
    if range.last < range.first ∨ now < range.last then .error .invalidIdentity
    else if staged.journal.limits.historyTicks ≤ now - range.first then .error .outsideHistory
    else if staged.journal.limits.records < corrected.length then .error .capacity
    else (staged.replayEvents now range validate [] corrected).bind fun staged =>
      staged.forEntries fun staged entry =>
        if absent range corrected entry then staged.cancel entry .replayAbsent .replayAbsent
        else .ok staged

/-! ### Decisions -/

def setBinding (staged : Staged P) (binding : Binding) : Staged P :=
  { staged with journal := staged.journal.setBinding binding }

/-- The event an index was bound to before is retired, when another event takes the index. -/
def retireBound (staged : Staged P) (old : Binding) (key : EventKey) :
    Except EventError (Staged P) :=
  if old.key ≠ key then
    match staged.journal.entries[old.key]? with
    | some entry => staged.cancel entry .expired .expired
    | none => .ok staged
  else .ok staged

/-- The index fence of a binding: a newer generation may take the index over. -/
def fenceBinding (staged : Staged P) (key : EventKey) (entity : EntityId) :
    Except EventError (Staged P) :=
  match staged.journal.bindings[entity.index]? with
  | some old =>
    if entity.generation < old.entity.generation then .error .stale
    else if entity.generation = old.entity.generation ∧ old.key ≠ key then .error .conflict
    else (staged.retireBound old key).map (·.setBinding ⟨entity, key⟩)
  | none =>
    if staged.journal.limits.bindings ≤ staged.journal.bindings.size then .error .resetRequired
    else .ok (staged.setBinding ⟨entity, key⟩)

def bind (staged : Staged P) (entry : Entry P) (entity : EntityId) : Except EventError (Staged P) :=
  if entity.generation = 0 then .error .invalidIdentity
  else match entry.binding with
    | some old => if old = entity then .ok staged else .error .conflict
    | none =>
      let key := entry.identity.key
      (staged.fenceBinding key entity).bind fun staged =>
        (staged.setEntry { entry with binding := some entity }).emit
          (if entry.phase = .replayAbsent ∨ entry.phase = .expired ∨ entry.phase = .rejected then
            .bindRetired key entity
          else .bind key entity)

/-- The decision of an accepted event. -/
def accept (staged : Staged P) (entry : Entry P) : Except EventError (Staged P) :=
  if entry.decision ≠ .accepted then
    (staged.setEntry { entry with decision := .accepted }).emit (.confirm entry.identity.key)
  else .ok staged

def resolve (now : ℕ) (identity : EventIdentity) (outcome : Outcome) (staged : Staged P) :
    Except EventError (Staged P) :=
  (staged.advanceInner now).bind fun staged =>
    (staged.entry identity).bind fun (staged, entry) =>
      match outcome with
      | .rejected =>
        if entry.decision = .accepted then .error .conflict
        else staged.cancel { entry with decision := .rejected } .rejected .rejected
      | .accepted binding =>
        if entry.decision = .rejected ∨
          staged.journal.rejectedActions.contains identity.key.action then
          .error .conflict
        else (staged.accept entry).bind fun staged =>
          match binding with
          | some entity => staged.bind { entry with decision := .accepted } entity
          | none => .ok staged

/-- The action is fenced, once. -/
def fenceAction (staged : Staged P) (action : ActionKey) : Except EventError (Staged P) :=
  if staged.journal.rejectedActions.contains action then .ok staged
  else if staged.journal.limits.actionFences ≤ staged.journal.rejectedActions.size then
    .error .resetRequired
  else .ok { staged with journal := staged.journal.fence action }

def rejectAction (now : ℕ) (action : ActionKey) (staged : Staged P) :
    Except EventError (Staged P) :=
  (staged.advanceInner now).bind fun staged =>
    (staged.journal.validAction action).bind fun _ =>
      if (values staged.journal.entries).any
          (fun entry => entry.identity.key.action = action ∧ entry.decision = .accepted) then
        .error .conflict
      else
        (staged.fenceAction action).bind fun staged =>
          staged.forEntries fun staged entry =>
            if entry.identity.key.action = action then
              staged.cancel { entry with decision := .rejected } .rejected .rejected
            else .ok staged

def expire (now : ℕ) (identity : EventIdentity) (staged : Staged P) :
    Except EventError (Staged P) :=
  (staged.advanceInner now).bind fun staged =>
    (staged.entry identity).bind fun (staged, entry) =>
      if entry.phase ≠ .rejected then staged.cancel entry .expired .expired else .ok staged

end Staged

/-! ### Calls -/

namespace EventJournal
variable {P : Type} [Payload P] [Layout P]

/-- A call on a staged copy; the copy is the journal only when all of it succeeds. -/
def transaction (journal : EventJournal P) (memory : Bool)
    (apply : Staged P → Except EventError (Staged P)) :
    EventJournal P × Except EventError (List (Change P)) :=
  let result := (new memory journal.scope journal.limits).bind fun (fresh : EventJournal P) =>
    let copy := { fresh with
      now := journal.now, retired := journal.retired, entries := journal.entries
      keyed := journal.keyed, bindings := journal.bindings
      rejectedActions := journal.rejectedActions }
    copy.checkResident.bind fun _ =>
      (apply ⟨copy, [], 0⟩).bind fun staged => staged.journal.checkResident.map fun _ => staged
  match result with
  | .ok staged => (staged.journal, .ok staged.changes)
  | .error error => (journal, .error error)

/-- The entries and fences of the later commands, with the watermark behind them. -/
def retain (journal : EventJournal P) (sequence : ℕ) : EventJournal P :=
  { journal with
    entries := journal.entries.filter fun _ entry => sequence < entry.identity.key.action.command
    keyed := fun key entry h => by
      rw [ExtTreeMap.getElem?_filter'] at h
      exact journal.keyed key entry (Option.eq_some_of_filter_eq_some h)
    rejectedActions := journal.rejectedActions.filter (sequence < ·.command)
    retired := sequence }

def retireThrough (journal : EventJournal P) (sequence : ℕ) :
    EventJournal P × Except EventError Unit :=
  if sequence < journal.retired then (journal, .error .stale)
  else if (values journal.entries).any
      (fun entry => entry.identity.key.action.command ≤ sequence ∧ entry.phase = .live) then
    (journal, .error .liveHistory)
  else (journal.retain sequence, .ok ())

def reset (journal : EventJournal P) (memory : Bool) (scope : JournalScope) :
    EventJournal P × Except EventError (List (Change P)) :=
  if scope ≤ journal.scope then (journal, .error .stale)
  else match new memory scope journal.limits with
    | .error error => (journal, .error error)
    | .ok replacement =>
      match (Staged.mk journal [] 0).emit (.reset journal.scope scope) with
      | .error error => (journal, .error error)
      | .ok staged => (replacement, .ok staged.changes)

end EventJournal

inductive Call (P : Type) where
  | advance (memory : Bool) (now : ℕ)
  | reconcile (memory : Bool) (now : ℕ) (range : ReplayRange) (corrected : List (EventRecord P))
    (validate : P → Bool)
  | resolve (memory : Bool) (now : ℕ) (identity : EventIdentity) (outcome : Outcome)
  | rejectAction (memory : Bool) (now : ℕ) (action : ActionKey)
  | expire (memory : Bool) (now : ℕ) (identity : EventIdentity)
  | retireThrough (sequence : ℕ)
  | reset (memory : Bool) (scope : JournalScope)

/-- One call: the journal after it, and the changes it returns. -/
def EventJournal.call {P : Type} [Payload P] [Layout P] [BEq P] (journal : EventJournal P) :
    Call P → EventJournal P × Except EventError (List (Change P))
  | .advance memory now => journal.transaction memory (·.advanceInner now)
  | .reconcile memory now range corrected validate =>
    journal.transaction memory (Staged.reconcile now range corrected validate)
  | .resolve memory now identity outcome =>
    journal.transaction memory (Staged.resolve now identity outcome)
  | .rejectAction memory now action => journal.transaction memory (Staged.rejectAction now action)
  | .expire memory now identity => journal.transaction memory (Staged.expire now identity)
  | .retireThrough sequence =>
    match journal.retireThrough sequence with
    | (journal, answer) => (journal, answer.map fun _ => [])
  | .reset memory scope => journal.reset memory scope

end Net.Events
