import Discordium.Net.Types

/-!
# Net — Commands — Inbox

The command inbox of one owner stream, as `commands.rs` has it: `admitCommand` classifies a command
and records it in the bounded audit, `prepareNext` fixes the input of the next tick, `commit`
finalizes that tick.  The game's callbacks are the record `CommandRules`, given anew at each call;
the fingerprint of a command under an encoding cap is a parameter.  An indexing, an `expect` or a
subtraction that would panic answers `panic` here.
-/

namespace Net
open Lib
open Std (ExtTreeMap)

structure OwnerStream where
  connection : ℕ
  epoch : ℕ
  stream : ℕ
  owner : EntityId
  ownership : ℕ
  deriving DecidableEq

structure ActionEdge (A : Type) where
  slot : ℕ
  action : A
  deriving DecidableEq

structure Command (I A : Type) where
  owner : OwnerStream
  sequence : ℕ
  target : ℕ
  input : I
  actions : BoundedVec (ActionEdge A) 8
  deriving DecidableEq

/-- The game's callbacks. -/
structure CommandRules (I A : Type) where
  ownsAt : OwnerStream → ℕ → Bool
  validInput : I → Bool
  validAction : A → Bool
  heldInput : I → I
  neutralInput : I

structure CommandLimits where
  futureTicks : ℕ
  heldGraceTicks : ℕ
  auditRecords : ℕ
  sequenceAhead : ℕ
  maxCommandBytes : ℕ
  submissionsPerTick : ℕ

/-- `CommandLimits::default()`. -/
def CommandLimits.default : CommandLimits where
  futureTicks := 12
  heldGraceTicks := 3
  auditRecords := 256
  sequenceAhead := 256
  maxCommandBytes := 2048
  submissionsPerTick := 64

/-- The errors the inbox itself can answer. -/
inductive CommandError where
  | invalidConfiguration
  | wrongOwnerStream
  | ownershipDenied
  | invalidIdentity
  | invalidInput
  | invalidAction
  | duplicateActionSlot
  | oversizedOrInvalidEncoding
  | equivocation
  | sequenceWindow
  | auditFull
  | rateLimit
  | tickInProgress
  | tickExhausted
  | nothingPrepared
  | wrongCommitTick
  | invalidSubstitute
  deriving DecidableEq

inductive Admission where
  | accepted (arrivalSlack : ℕ)
  | duplicate
  | late
  | future
  | targetOccupied
  | retiredSequence
  deriving DecidableEq

def Admission.isAccepted : Admission → Bool
  | .accepted _ => true
  | _ => false

inductive FinalizedStatus where
  | executed
  | substituted
  deriving DecidableEq

structure FinalizedReceipt where
  tick : ℕ
  sequence : Option ℕ
  status : FinalizedStatus
  deriving DecidableEq

structure PreparedInput (I A : Type) where
  tick : ℕ
  sequence : Option ℕ
  input : I
  actions : BoundedVec (ActionEdge A) 8
  missingStreak : ℕ

structure AuditRecord (F : Type) where
  fingerprint : F
  admission : Admission
  pending : Bool

/-- Committed input state needed to reproduce bounded missing-input substitution. -/
structure InputContinuity (I : Type) where
  lastInput : Option I
  missingStreak : ℕ
  deriving DecidableEq

namespace InputContinuity
variable {I : Type}

def default : InputContinuity I := ⟨none, 0⟩

def commitInput (_ : InputContinuity I) (input : I) : InputContinuity I := ⟨some input, 0⟩

/-- The substitute input and its missing streak; the committed state is not changed. -/
def substitute (c : InputContinuity I) (graceTicks : ℕ) (held : I → I) (neutral : I) : I × ℕ :=
  let missingStreak := saturatingAdd 32 c.missingStreak 1
  let input := if missingStreak ≤ graceTicks then c.lastInput.elim neutral held else neutral
  (input, missingStreak)

end InputContinuity

structure CommandInbox (I A F : Type) where
  owner : OwnerStream
  limits : CommandLimits
  finalized : ℕ
  pending : ExtTreeMap ℕ (Command I A)
  audit : ExtTreeMap ℕ (AuditRecord F)
  auditOrder : List ℕ
  retiredSequence : Option ℕ
  highestReceived : Option ℕ
  sequenceWindowFloor : ℕ
  receipts : List FinalizedReceipt
  prepared : Option (PreparedInput I A)
  continuity : InputContinuity I
  submissions : ℕ

namespace CommandInbox
variable {I A F : Type}

def new (owner : OwnerStream) (initializedAt : ℕ) (limits : CommandLimits) :
    Except CommandError (CommandInbox I A F) :=
  if limits.futureTicks = 0 ∨ 12 < limits.futureTicks ∨ 3 < limits.heldGraceTicks
      ∨ limits.auditRecords < limits.futureTicks ∨ limits.sequenceAhead < limits.futureTicks
      ∨ limits.maxCommandBytes = 0 ∨ limits.submissionsPerTick = 0 then
    .error .invalidConfiguration
  else if owner.epoch = 0 ∨ owner.stream = 0 ∨ owner.owner.generation = 0 ∨ owner.ownership = 0 then
    .error .invalidIdentity
  else
    .ok
      { owner, limits, finalized := initializedAt, pending := ∅, audit := ∅, auditOrder := []
        retiredSequence := none, highestReceived := none, sequenceWindowFloor := 0, receipts := []
        prepared := none, continuity := .default, submissions := 0 }

/-! ### Admission -/

/-- The loop over the action edges, with the slots seen so far. -/
def checkActions (rules : CommandRules I A) (slots : List ℕ) :
    List (ActionEdge A) → Option CommandError
  | [] => none
  | edge :: edges =>
    if 8 ≤ edge.slot ∨ !rules.validAction edge.action then some .invalidAction
    else if edge.slot ∈ slots then some .duplicateActionSlot
    else checkActions rules (edge.slot :: slots) edges

/-- The checks of `admitCommand` that read the command and the rules only. -/
def checkCommand (rules : CommandRules I A) (command : Command I A) : Option CommandError :=
  if !rules.ownsAt command.owner command.target then some .ownershipDenied
  else if command.sequence = 0 ∨ command.target = 0 then some .invalidIdentity
  else if !rules.validInput command.input then some .invalidInput
  else checkActions rules [] command.actions.1

/-- What the audit and the sequence floors answer on their own; nothing when the command is to be
classified. -/
def screen [DecidableEq F] (inbox : CommandInbox I A F) (sequence : ℕ) (fingerprint : F) :
    Option (Answer CommandError Admission) :=
  match inbox.audit[sequence]? with
  | some previous =>
    if previous.fingerprint ≠ fingerprint then some (.err .equivocation)
    else match previous.admission with
      | .accepted _ => some (.ok .duplicate)
      | .late => some (.ok .late)
      | .targetOccupied => some (.ok .targetOccupied)
      -- a too-early identical command may become eligible later
      | _ => none
  | none =>
    if inbox.retiredSequence.any (fun floor => sequence ≤ floor) then some (.ok .retiredSequence)
    else if saturatingAdd 64 inbox.sequenceWindowFloor inbox.limits.sequenceAhead < sequence then
      some (.err .sequenceWindow)
    else none

/-- The last tick whose input is already fixed. -/
def cutoff (inbox : CommandInbox I A F) : ℕ :=
  inbox.prepared.elim inbox.finalized (·.tick)

/-- The admission of a command by its target; nothing when `target - finalized` would underflow. -/
def classify (inbox : CommandInbox I A F) (target : ℕ) : Option Admission :=
  if target ≤ inbox.cutoff then some .late
  else if saturatingAdd 64 inbox.finalized inbox.limits.futureTicks < target then some .future
  else if inbox.pending.contains target then some .targetOccupied
  else (checkedSub target inbox.finalized).map .accepted

/-- The index of the first sequence of the audit order that is not pending: `none` when
`self.audit[seq]` panics on the way, `some none` when every record is pending. -/
def positionUnpinned (audit : ExtTreeMap ℕ (AuditRecord F)) :
    List ℕ → Option (Option ℕ)
  | [] => some none
  | seq :: rest =>
    match audit[seq]? with
    | none => none
    | some record =>
      if record.pending then (positionUnpinned audit rest).map (Option.map (· + 1))
        else some (some 0)

/-- The maximum of an optional sequence and a sequence. -/
def raise (old : Option ℕ) (sequence : ℕ) : Option ℕ :=
  some (old.elim sequence (max · sequence))

def reserveAudit (inbox : CommandInbox I A F) (sequence : ℕ) :
    CommandInbox I A F × Answer CommandError Unit :=
  if inbox.audit.contains sequence then (inbox, .ok ())
  else if inbox.audit.size = inbox.limits.auditRecords then
    match positionUnpinned inbox.audit inbox.auditOrder with
    | none => (inbox, .panic)
    | some none => (inbox, .err .auditFull)
    | some (some index) =>
      match inbox.auditOrder[index]? with
      | none => (inbox, .panic)
      | some evicted =>
        ({ inbox with
            auditOrder := inbox.auditOrder.eraseIdx index ++ [sequence]
            audit := inbox.audit.erase evicted
            retiredSequence := raise inbox.retiredSequence evicted }, .ok ())
  else ({ inbox with auditOrder := inbox.auditOrder ++ [sequence] }, .ok ())

/-- The audit record of a classified command and, when it is accepted, its pending entry. -/
def record (inbox : CommandInbox I A F) (command : Command I A) (fingerprint : F)
    (admission : Admission) : CommandInbox I A F :=
  let accepted := admission.isAccepted
  let inbox := { inbox with
    audit := inbox.audit.insert command.sequence ⟨fingerprint, admission, accepted⟩ }
  if accepted then
    { inbox with
      highestReceived := raise inbox.highestReceived command.sequence
      pending := inbox.pending.insert command.target command }
  else inbox

section record
variable (inbox : CommandInbox I A F) (command : Command I A) (fp : F) (admission : Admission)

@[simp] theorem record_audit : (inbox.record command fp admission).audit =
    inbox.audit.insert command.sequence ⟨fp, admission, admission.isAccepted⟩ := by
  unfold record; dsimp only; split <;> rfl

@[simp] theorem record_pending : (inbox.record command fp admission).pending =
    if admission.isAccepted then inbox.pending.insert command.target command
      else inbox.pending := by
  unfold record; dsimp only; split <;> rfl

@[simp] theorem record_auditOrder :
    (inbox.record command fp admission).auditOrder = inbox.auditOrder := by
  unfold record; dsimp only; split <;> rfl

@[simp] theorem record_finalized :
    (inbox.record command fp admission).finalized = inbox.finalized := by
  unfold record; dsimp only; split <;> rfl

@[simp] theorem record_prepared :
    (inbox.record command fp admission).prepared = inbox.prepared := by
  unfold record; dsimp only; split <;> rfl

@[simp] theorem record_retiredSequence :
    (inbox.record command fp admission).retiredSequence = inbox.retiredSequence := by
  unfold record; dsimp only; split <;> rfl

@[simp] theorem record_limits : (inbox.record command fp admission).limits = inbox.limits := by
  unfold record; dsimp only; split <;> rfl

end record

/-- `admitCommand`, given the fingerprint of a command under the encoding cap. -/
def admitCommand [DecidableEq F] (fingerprint : Command I A → ℕ → Option (F × ℕ))
    (inbox : CommandInbox I A F) (authenticatedConnection : ℕ) (command : Command I A)
    (rules : CommandRules I A) : CommandInbox I A F × Answer CommandError Admission :=
  if authenticatedConnection ≠ inbox.owner.connection ∨ command.owner ≠ inbox.owner then
    (inbox, .err .wrongOwnerStream)
  else if inbox.limits.submissionsPerTick ≤ inbox.submissions then (inbox, .err .rateLimit)
  else
    let inbox := { inbox with submissions := inbox.submissions + 1 }
    match checkCommand rules command with
    | some error => (inbox, .err error)
    | none =>
      match fingerprint command inbox.limits.maxCommandBytes with
      | none => (inbox, .err .oversizedOrInvalidEncoding)
      | some (fp, _) =>
        match inbox.screen command.sequence fp with
        | some answer => (inbox, answer)
        | none =>
          match inbox.classify command.target with
          | none => (inbox, .panic)
          | some admission =>
            match inbox.reserveAudit command.sequence with
            | (inbox, .ok ()) => (inbox.record command fp admission, .ok admission)
            | (inbox, .err error) => (inbox, .err error)
            | (inbox, .panic) => (inbox, .panic)

/-! ### Preparation and commit -/

def prepareNext (inbox : CommandInbox I A F) (rules : CommandRules I A) :
    CommandInbox I A F × Answer CommandError (PreparedInput I A) :=
  if inbox.prepared.isSome then (inbox, .err .tickInProgress)
  else match checkedNext inbox.finalized with
    | none => (inbox, .err .tickExhausted)
    | some tick =>
      if !rules.ownsAt inbox.owner tick then (inbox, .err .ownershipDenied)
      else match inbox.pending[tick]? with
        | some command =>
          let prepared : PreparedInput I A :=
            ⟨tick, some command.sequence, command.input, command.actions, 0⟩
          ({ inbox with prepared := some prepared }, .ok prepared)
        | none =>
          let substitute := inbox.continuity.substitute inbox.limits.heldGraceTicks rules.heldInput
            rules.neutralInput
          if !rules.validInput substitute.1 then (inbox, .err .invalidSubstitute)
          else
            let prepared : PreparedInput I A := ⟨tick, none, substitute.1, .empty, substitute.2⟩
            ({ inbox with prepared := some prepared }, .ok prepared)

/-- The bounded queue of receipts after one more. -/
def pushReceipt (bound : ℕ) (receipts : List FinalizedReceipt) (receipt : FinalizedReceipt) :
    List FinalizedReceipt :=
  (if receipts.length = bound then receipts.tail else receipts) ++ [receipt]

/-- The receipt a prepared input is finalized with. -/
def receiptOf (prepared : PreparedInput I A) : FinalizedReceipt :=
  ⟨prepared.tick, prepared.sequence, if prepared.sequence.isSome then .executed else .substituted⟩

/-- The part of `commit` that follows the executed or substituted selection. -/
def finalize (inbox : CommandInbox I A F) (prepared : PreparedInput I A) :
    CommandInbox I A F × FinalizedReceipt :=
  let receipt := receiptOf prepared
  ({ inbox with
      continuity := { inbox.continuity with missingStreak := prepared.missingStreak }
      finalized := prepared.tick
      submissions := 0
      receipts := pushReceipt inbox.limits.auditRecords inbox.receipts receipt }, receipt)

def commit (inbox : CommandInbox I A F) (tick : ℕ) :
    CommandInbox I A F × Answer CommandError FinalizedReceipt :=
  match inbox.prepared with
  | none => (inbox, .err .nothingPrepared)
  | some prepared =>
    if prepared.tick ≠ tick then (inbox, .err .wrongCommitTick)
    else
      let floor := saturatingAdd 64 inbox.sequenceWindowFloor 1
      match prepared.sequence with
      | none =>
        let (inbox, receipt) :=
          finalize { inbox with prepared := none, sequenceWindowFloor := floor } prepared
        (inbox, .ok receipt)
      | some sequence =>
        let inbox := { inbox with
          prepared := none
          continuity := inbox.continuity.commitInput prepared.input
          sequenceWindowFloor := max floor sequence
          pending := inbox.pending.erase tick }
        match inbox.audit[sequence]? with
        | none => (inbox, .panic)
        | some record =>
          let (inbox, receipt) := finalize { inbox with
            audit := inbox.audit.insert sequence { record with pending := false } } prepared
          (inbox, .ok receipt)

end CommandInbox
end Net
