import Discordium.Lib.Index
import Discordium.Net.Types
import Discordium.Net.Replication.Types

/-!
# Net — Outcomes — Ledger

The bounded ledger of terminal action results, as `outcomes.rs` has it.  A key is reserved before
its command is admitted, and finished once; a finished record stays until it has been reported, or
its delivery path is closed, and its retention is over.  The sequencer may be shared by several
ledgers, so `finish` takes the next sequence number and answers with the one after it.  The code
unwraps look-ups it expects to succeed and subtracts from a count it expects to be positive; a call
that would panic there goes on in the model and leaves the mark `panicked`.
-/

namespace Net
open Lib
open Std (ExtTreeMap ExtTreeSet)

structure OutcomeLimits where
  records : ℕ
  recordsPerOwner : ℕ
  retainedBytes : ℕ
  maximumPayloadBytes : ℕ
  retentionTicks : ℕ

inductive OutcomeError where
  | invalid
  | capacity
  | unknown
  | conflict
  | sequenceExhausted
  deriving DecidableEq

/-- A terminal result; `atTick` is the source's `at`. -/
structure TerminalOutcome (P : Type) where
  sequence : ℕ
  key : ActionKey
  atTick : ℕ
  payload : P

structure OutcomeRecord (P : Type) where
  owner : ℕ
  terminal : Option (TerminalOutcome P)
  reported : Bool
  deliveryClosed : Bool

/-- The owner and connection epoch results are delivered to. -/
structure DeliveryStream where
  owner : ℕ
  connection : ℕ
  deriving DecidableEq

namespace DeliveryStream

def path (stream : DeliveryStream) : List ℕ := [stream.owner, stream.connection]

theorem path_injective : Function.Injective path := by
  rintro ⟨⟩ ⟨⟩ h
  simpa [path] using h

instance : Ord DeliveryStream := ⟨compareOn path⟩

instance : Std.TransOrd DeliveryStream := inferInstanceAs (Std.TransCmp (compareOn path))

instance : Std.LawfulEqOrd DeliveryStream := lawfulEqCmp_compareOn path_injective

end DeliveryStream

/-- A result that waits for its delivery. -/
structure Queued where
  sequence : ℕ
  key : ActionKey

namespace Queued

def path (queued : Queued) : List ℕ := queued.sequence :: queued.key.path

theorem path_injective : Function.Injective path := by
  rintro ⟨s, k⟩ ⟨s', k'⟩ h
  obtain ⟨hsequence, hkey⟩ := List.cons.inj h
  exact congrArg₂ mk hsequence (ActionKey.path_injective hkey)

instance : Ord Queued := ⟨compareOn path⟩

instance : Std.TransOrd Queued := inferInstanceAs (Std.TransCmp (compareOn path))

instance : Std.LawfulEqOrd Queued := lawfulEqCmp_compareOn path_injective

end Queued

structure OutcomeLedger (P : Type) where
  limits : OutcomeLimits
  records : ExtTreeMap ActionKey (OutcomeRecord P)
  owners : ExtTreeMap ℕ ℕ
  /-- The unreported results of a stream, by sequence. -/
  delivery : ExtTreeMap DeliveryStream (ExtTreeSet Queued)
  charge : ℕ
  /-- An unwrap or a subtraction of the code has failed. -/
  panicked : Bool

namespace OutcomeLedger
variable {P : Type}

/-- `with_sequencer`, given the size of a record. -/
def new (recordBytes : ℕ) (limits : OutcomeLimits) : Except OutcomeError (OutcomeLedger P) :=
  match (checkedAdd 64 recordBytes 256).bind (checkedAdd 64 · limits.maximumPayloadBytes) with
  | none => .error .invalid
  | some charge =>
    if limits.records = 0 ∨ limits.recordsPerOwner = 0 ∨ limits.retentionTicks = 0 ∨
        limits.maximumPayloadBytes = 0 ∨ limits.retainedBytes < charge then .error .invalid
    else .ok { limits, records := ∅, owners := ∅, delivery := ∅, charge, panicked := false }

def retainedBytes (ledger : OutcomeLedger P) : ℕ := ledger.records.size * ledger.charge

/-- The number of records of an owner, as the owners table has it. -/
def owned (ledger : OutcomeLedger P) (owner : ℕ) : ℕ := ledger.owners[owner]?.getD 0

def availableFor (ledger : OutcomeLedger P) (owner : ℕ) : ℕ :=
  min (min (ledger.limits.records - ledger.records.size)
      (ledger.limits.recordsPerOwner - ledger.owned owner))
    ((ledger.limits.retainedBytes - ledger.retainedBytes) / ledger.charge)

def closeDelivery (ledger : OutcomeLedger P) (owner connection : ℕ) : OutcomeLedger P :=
  { ledger with
    delivery := ledger.delivery.erase ⟨owner, connection⟩
    records := ledger.records.map fun key record =>
      if record.owner = owner ∧ key.connection = connection
        then { record with deliveryClosed := true }
      else record }

/-! ### Reservations -/

/-- A key whose identities may name an action. -/
def validKey (key : ActionKey) : Bool :=
  key.connection ≠ 0 && key.stream ≠ 0 && key.command ≠ 0 && key.slot < 8

/-- A reservation. -/
def reservation (owner : ℕ) : OutcomeRecord P := ⟨owner, none, false, false⟩

/-- The keys of a request the ledger does not hold yet. -/
def fresh (ledger : OutcomeLedger P) (keys : List ActionKey) : List ActionKey :=
  keys.filter fun key => !ledger.records.contains key

def reserve (ledger : OutcomeLedger P) (owner : ℕ) (keys : List ActionKey) :
    OutcomeLedger P × Except OutcomeError (List ActionKey) :=
  if owner = 0 ∨ keys = [] ∨ 8 < keys.length then (ledger, .error .invalid)
  else if ¬keys.Nodup ∨ keys.any (fun key => !validKey key) then (ledger, .error .invalid)
  else if keys.any (fun key => ledger.records[key]?.any fun record => record.owner ≠ owner) then
    (ledger, .error .conflict)
  else
    let new := ledger.fresh keys
    let owned := ledger.owned owner + new.length
    match checkedAdd 64 ledger.records.size new.length with
    | none => (ledger, .error .capacity)
    | some total =>
      if ledger.limits.records < total ∨ ledger.limits.recordsPerOwner < owned ∨
          wordMax 64 < total * ledger.charge ∨ ledger.limits.retainedBytes <
            total * ledger.charge then
        (ledger, .error .capacity)
      else
        ({ ledger with
            records := new.foldl (fun records key => records.insert key (reservation owner))
              ledger.records
            owners := if owned ≠ 0 then ledger.owners.insert owner owned
              else ledger.owners }, .ok new)

/-- The delivery set of a stream without one result, dropped when it is empty. -/
def undeliver (ledger : OutcomeLedger P) (stream : DeliveryStream) (queued : Queued) :
    OutcomeLedger P :=
  { ledger with delivery := removeMember ledger.delivery stream queued }

/-- The owners table with one record less for an owner. -/
def release (owners : ExtTreeMap ℕ ℕ) (owner : ℕ) : ExtTreeMap ℕ ℕ :=
  match owners[owner]? with
  | none => owners
  | some count => if count - 1 = 0 then owners.erase owner else owners.insert owner (count - 1)

def remove (ledger : OutcomeLedger P) (key : ActionKey) : OutcomeLedger P :=
  match ledger.records[key]? with
  | none => ledger
  | some record =>
    let ledger := record.terminal.elim ledger fun terminal =>
      ledger.undeliver ⟨record.owner, key.connection⟩ ⟨terminal.sequence, key⟩
    { ledger with
      records := ledger.records.erase key
      owners := release ledger.owners record.owner
      -- the count is unwrapped, and one is taken from it
      panicked := ledger.panicked || ledger.owners[record.owner]?.all (· = 0) }

/-- `cancel_reservations`: releases the keys that are still pending. -/
def cancelReservations (ledger : OutcomeLedger P) (keys : List ActionKey) : OutcomeLedger P :=
  keys.foldl (fun ledger key =>
    if ledger.records[key]?.any (fun record => record.terminal.isNone) then ledger.remove key
    else ledger) ledger

/-! ### Results -/

def finish [BEq P] [Payload P] (ledger : OutcomeLedger P) (sequence owner : ℕ) (key : ActionKey)
    (atTick : ℕ) (payload : P) : OutcomeLedger P × ℕ × Except OutcomeError ℕ :=
  if ledger.limits.maximumPayloadBytes < Payload.retainedBytes payload then
    (ledger, sequence, .error .capacity)
  else match ledger.records[key]? with
    | none => (ledger, sequence, .error .unknown)
    | some record =>
      if record.owner ≠ owner then (ledger, sequence, .error .unknown)
      else match record.terminal with
        | some old =>
          if old.atTick = atTick ∧ old.payload == payload then (ledger, sequence, .ok old.sequence)
          else (ledger, sequence, .error .conflict)
        | none =>
          match checkedAdd 64 sequence 1 with
          | none => (ledger, sequence, .error .sequenceExhausted)
          | some next =>
            let terminal := some ⟨sequence, key, atTick, payload⟩
            let stream : DeliveryStream := ⟨owner, key.connection⟩
            ({ ledger with
                records := ledger.records.insert key { record with terminal }
                delivery :=
                  if record.deliveryClosed then ledger.delivery
                  else addMember ledger.delivery stream ⟨sequence, key⟩ }, next, .ok sequence)

def lookup (ledger : OutcomeLedger P) (owner : ℕ) (key : ActionKey) : Option (TerminalOutcome P) :=
  (ledger.records[key]?.filter fun record => record.owner = owner).bind (·.terminal)

/-- One record marked as reported; the record and its terminal result are unwrapped. -/
def markReported (ledger : OutcomeLedger P) (owner : ℕ) (key : ActionKey) : OutcomeLedger P :=
  match ledger.records[key]? with
  | none => { ledger with panicked := true }
  | some record =>
    let marked :=
      { ledger with records := ledger.records.insert key { record with reported := true } }
    record.terminal.elim { marked with panicked := true } fun terminal =>
      marked.undeliver ⟨owner, key.connection⟩ ⟨terminal.sequence, key⟩

def reported (ledger : OutcomeLedger P) (owner : ℕ) (keys : List ActionKey) :
    OutcomeLedger P × Except OutcomeError Unit :=
  if keys.any (fun key => ledger.records[key]?.all fun record =>
      decide (record.owner ≠ owner) || record.terminal.isNone) then (ledger, .error .unknown)
  else (keys.foldl (fun ledger key => ledger.markReported owner key) ledger, .ok ())

/-- A record whose result may be dropped. -/
def isExpired (ledger : OutcomeLedger P) (now : ℕ) (record : OutcomeRecord P) : Bool :=
  (record.reported || record.deliveryClosed) &&
    record.terminal.any fun terminal => ledger.limits.retentionTicks ≤ now - terminal.atTick

def expire (ledger : OutcomeLedger P) (now : ℕ) : OutcomeLedger P :=
  ((ledger.records.toList.filter fun (_, record) => ledger.isExpired now record).map (·.1)).foldl
    remove ledger

end OutcomeLedger
end Net
