import Discordium.Lib.Machine
import Discordium.Net.Outcomes.Bookkeeping

/-!
# Net — Outcomes — Sharing

Ledgers that draw their sequence numbers from one sequencer, each with payloads of its own type, and
the calls on them in any order.

**Bookkeeping** (`ledgers_booked`).  In every state such a run reaches, every ledger is booked; the
sequences given so far increase in the order they were given, over all ledgers; and a result is held
unchanged until its delivery and its retention are over.
-/

namespace Net
open Lib OutcomeLedger

/-! ### Ledgers that share a sequencer -/

inductive LedgerCall (P : Type) where
  | reserve (owner : ℕ) (keys : List ActionKey)
  | cancelReservations (keys : List ActionKey)
  | finish (owner : ℕ) (key : ActionKey) (atTick : ℕ) (payload : P)
  | reported (owner : ℕ) (keys : List ActionKey)
  | closeDelivery (owner connection : ℕ)
  | expire (now : ℕ)

/-- The error of an answer. -/
def errorOf {ε α : Type} : Except ε α → Option ε
  | .error error => some error
  | .ok _ => none

/-- A call on one ledger: the ledger and the sequencer after it, its error, and the sequence it gave
to the record of a key that had no result. -/
structure LedgerAnswer (P : Type) where
  ledger : OutcomeLedger P
  sequence : ℕ
  error : Option OutcomeError
  given : Option (ActionKey × ℕ)

def OutcomeLedger.call {P : Type} [BEq P] [Payload P] (ledger : OutcomeLedger P) (sequence : ℕ) :
    LedgerCall P → LedgerAnswer P
  | .reserve owner keys =>
    let answer := ledger.reserve owner keys
    ⟨answer.1, sequence, errorOf answer.2, none⟩
  | .cancelReservations keys => ⟨ledger.cancelReservations keys, sequence, none, none⟩
  | .finish owner key atTick payload =>
    let answer := ledger.finish sequence owner key atTick payload
    ⟨answer.1, answer.2.1, errorOf answer.2.2,
      if (ledger.lookup owner key).isNone then answer.2.2.toOption.map (key, ·) else none⟩
  | .reported owner keys =>
    let answer := ledger.reported owner keys
    ⟨answer.1, sequence, errorOf answer.2, none⟩
  | .closeDelivery owner connection => ⟨ledger.closeDelivery owner connection, sequence, none, none⟩
  | .expire now => ⟨ledger.expire now, sequence, none, none⟩

namespace OutcomeLedger
variable {P : Type} [BEq P] [Payload P] {ledger : OutcomeLedger P}

theorem Booked.call (h : ledger.Booked) (sequence : ℕ) (c : LedgerCall P) :
    (ledger.call sequence c).ledger.Booked := by
  cases c with
  | reserve owner keys => exact h.reserve owner keys
  | cancelReservations keys => exact h.cancelReservations keys
  | finish owner key atTick payload => exact h.finish sequence owner key atTick payload
  | reported owner keys => exact h.reported owner keys
  | closeDelivery owner connection => exact h.closeDelivery owner connection
  | expire now => exact h.expire now

/-- What a call can do to the entry of a key. -/
inductive EntryStep (sequence : ℕ) (given : Option (ActionKey × ℕ)) (key : ActionKey) :
    Option (ℕ × Option (TerminalOutcome P)) → Option (ℕ × Option (TerminalOutcome P)) → Prop
  | kept (entry : Option (ℕ × Option (TerminalOutcome P))) :
      EntryStep sequence given key entry entry
  | reserved (owner : ℕ) : EntryStep sequence given key none (some (owner, none))
  | cancelled (owner : ℕ) : EntryStep sequence given key (some (owner, none)) none
  | finished (owner : ℕ) (terminal : TerminalOutcome P) (hs : terminal.sequence = sequence)
      (hg : given = some (key, sequence)) :
      EntryStep sequence given key (some (owner, none)) (some (owner, some terminal))
  | expired (owner : ℕ) (terminal : TerminalOutcome P) :
      EntryStep sequence given key (some (owner, some terminal)) none

/-- What a call does to the results and the sequencer. -/
structure Effect (ledger : OutcomeLedger P) (sequence : ℕ) (answer : LedgerAnswer P) : Prop where
  limits : answer.ledger.limits = ledger.limits
  entry : ∀ key, EntryStep sequence answer.given key (ledger.entry key) (answer.ledger.entry key)
  /-- The sequencer moves by the sequence that is given, to a record without a result. -/
  next : answer.given = none ∧ answer.sequence = sequence ∨
    ∃ key owner, answer.given = some (key, sequence) ∧ ledger.entry key = some (owner, none) ∧
      answer.sequence = sequence + 1
  /-- A failed call changes nothing. -/
  failed : answer.error ≠ none →
    answer.ledger = ledger ∧ answer.sequence = sequence ∧ answer.given = none

theorem Effect.of_reserve (sequence owner : ℕ) (keys : List ActionKey) :
    Effect ledger sequence (ledger.call sequence (.reserve owner keys)) := by
  cases hanswer : ledger.reserve owner keys with
  | mk ledger' answer =>
    simp only [call, hanswer]
    cases answer with
    | error error =>
      obtain rfl := reserve_error hanswer
      exact ⟨rfl, fun key => .kept _, .inl ⟨rfl, rfl⟩, fun _ => ⟨rfl, rfl, rfl⟩⟩
    | ok granted =>
      have hgranted := reserve_ok hanswer
      refine ⟨hgranted.limits, fun key => ?_, .inl ⟨rfl, rfl⟩, fun herror => absurd rfl herror⟩
      dsimp only
      rw [hgranted.entry_eq key]
      split_ifs with hkey
      · rw [((hgranted.mem_iff key).mp hkey).2]
        exact .reserved owner
      · exact .kept _

theorem Effect.of_finish (sequence owner : ℕ) (key : ActionKey) (atTick : ℕ) (payload : P) :
    Effect ledger sequence (ledger.call sequence (.finish owner key atTick payload)) := by
  rcases hanswer : ledger.finish sequence owner key atTick payload with ⟨ledger', next, answer⟩
  simp only [call, hanswer]
  cases finish_step hanswer with
  | refused error =>
    refine ⟨rfl, fun key => .kept _, .inl ⟨?_, rfl⟩, fun _ => ⟨rfl, rfl, ?_⟩⟩ <;>
      · dsimp only
        split_ifs <;> rfl
  | repeated old h =>
    have hlookup : ledger.lookup owner key = some old := lookup_eq_some.mpr h
    refine ⟨rfl, fun key => .kept _, .inl ⟨?_, rfl⟩, fun herror => absurd rfl herror⟩
    simp [hlookup]
  | recorded ledger' h hs hl he =>
    have hlookup : ledger.lookup owner key = none := by
      cases hfound : ledger.lookup owner key with
      | none => rfl
      | some terminal =>
        rw [lookup_eq_some.mp hfound] at h
        cases h
    have hgiven : (if (ledger.lookup owner key).isNone then
        (Except.ok sequence : Except OutcomeError ℕ).toOption.map (key, ·) else none) =
        some (key, sequence) := by
      rw [hlookup]
      rfl
    rw [hgiven]
    refine ⟨hl, fun k => ?_, .inr ⟨key, owner, rfl, h, rfl⟩, fun herror => absurd rfl herror⟩
    dsimp only
    rw [he k]
    split_ifs with hk
    · subst hk
      rw [h]
      exact .finished owner _ rfl rfl
    · exact .kept _

omit [BEq P] [Payload P] in
theorem reported_failed {owner : ℕ} {keys : List ActionKey}
    (h : errorOf (ledger.reported owner keys).2 ≠ none) :
    (ledger.reported owner keys).1 = ledger := by
  unfold reported at h ⊢
  split_ifs at h ⊢
  · rfl
  · exact absurd rfl h

open Classical in
/-- **Every call has an effect.** -/
theorem call_effect (ledger : OutcomeLedger P) (sequence : ℕ) (c : LedgerCall P) :
    Effect ledger sequence (ledger.call sequence c) := by
  cases c with
  | reserve owner keys => exact .of_reserve sequence owner keys
  | finish owner key atTick payload => exact .of_finish sequence owner key atTick payload
  | cancelReservations keys =>
    refine ⟨cancelReservations_limits keys, fun key => ?_, .inl ⟨rfl, rfl⟩,
      fun herror => absurd rfl herror⟩
    simp only [call, cancelReservations_entry]
    split_ifs with hkey
    · obtain ⟨owner, hreserved⟩ := hkey.2
      rw [hreserved]
      exact .cancelled owner
    · exact .kept _
  | reported owner keys =>
    refine ⟨(reported_entry ⟨0, 0, 0, 0⟩).2, fun key => ?_, .inl ⟨rfl, rfl⟩, fun herror => ?_⟩
    · simp only [call, (reported_entry key).1]
      exact .kept _
    · exact ⟨reported_failed herror, rfl, rfl⟩
  | closeDelivery owner connection =>
    refine ⟨rfl, fun key => ?_, .inl ⟨rfl, rfl⟩, fun herror => absurd rfl herror⟩
    simp only [call, closeDelivery_entry]
    exact .kept _
  | expire now =>
    refine ⟨expire_limits now, fun key => ?_, .inl ⟨rfl, rfl⟩, fun herror => absurd rfl herror⟩
    rcases @expire_entry P ledger now key with hkept | ⟨hnone, owner, terminal, hsome, -⟩
    · simp only [call, hkept]
      exact .kept _
    · simp only [call, hnone, hsome]
      exact .expired owner terminal

end OutcomeLedger

section sharing
variable {ι : Type} [DecidableEq ι] {P : ι → Type} [∀ i, BEq (P i)] [∀ i, Payload (P i)]

/-- A sequence given to the record of a key in one of the ledgers. -/
structure Given (ι : Type) where
  ledger : ι
  key : ActionKey
  sequence : ℕ
  deriving DecidableEq

/-- Ledgers with their sequencer, and the sequences it has given, newest first. -/
structure Ledgers (P : ι → Type) where
  ledgers : ∀ i, OutcomeLedger (P i)
  sequence : ℕ
  given : List (Given ι)

namespace Ledgers

/-- A call on one of the ledgers. -/
def call (s : Ledgers P) (c : Σ i, LedgerCall (P i)) : Ledgers P :=
  let answer := (s.ledgers c.1).call s.sequence c.2
  { ledgers := Function.update s.ledgers c.1 answer.ledger
    sequence := answer.sequence
    given := (answer.given.map fun given => ⟨c.1, given.1, given.2⟩).toList ++ s.given }

/-- What was given last to the record of a key. -/
def lastGiven (s : Ledgers P) (i : ι) (key : ActionKey) : Option (Given ι) :=
  s.given.find? fun given => given.ledger = i ∧ given.key = key

/-- What holds between the calls of a run. -/
structure Kept (limits : ι → OutcomeLimits) (s : Ledgers P) : Prop where
  limits_eq : ∀ i, (s.ledgers i).limits = limits i
  booked : ∀ i, (s.ledgers i).Booked
  given_lt : ∀ given ∈ s.given, given.sequence < s.sequence
  increasing : s.given.Pairwise fun later earlier => earlier.sequence < later.sequence
  terminal_given : ∀ i owner key terminal, (s.ledgers i).lookup owner key = some terminal →
    s.lastGiven i key = some ⟨i, key, terminal.sequence⟩

variable {s : Ledgers P}

theorem call_self (i : ι) (c : LedgerCall (P i)) :
    (s.call ⟨i, c⟩).ledgers i = ((s.ledgers i).call s.sequence c).ledger :=
  Function.update_self i _ _

theorem call_other (c : Σ i, LedgerCall (P i)) {i : ι} (hi : i ≠ c.1) :
    (s.call c).ledgers i = s.ledgers i :=
  Function.update_of_ne hi _ _

/-- A call gives nothing, or the next sequence to a record without a result. -/
theorem call_given (c : Σ i, LedgerCall (P i)) :
    (s.call c).given = s.given ∧ (s.call c).sequence = s.sequence ∨
      ∃ key owner, (s.call c).given = ⟨c.1, key, s.sequence⟩ :: s.given ∧
        (s.ledgers c.1).entry key = some (owner, none) ∧ (s.call c).sequence = s.sequence + 1 := by
  rcases (call_effect (s.ledgers c.1) s.sequence c.2).next
    with ⟨hnone, hnext⟩ | ⟨key, owner, hsome, hentry, hnext⟩
  · exact .inl ⟨by rw [call, hnone]; rfl, hnext⟩
  · exact .inr ⟨key, owner, by rw [call, hsome]; rfl, hentry, hnext⟩

/-- What is given to another record, or to none, is not the last of a record with a result. -/
theorem call_lastGiven (c : Σ i, LedgerCall (P i)) {i : ι} {key : ActionKey} {owner : ℕ}
    {terminal : TerminalOutcome (P i)} (h : (s.ledgers i).entry key = some (owner, some terminal)) :
    (s.call c).lastGiven i key = s.lastGiven i key := by
  rcases call_given c with ⟨hgiven, -⟩ | ⟨key', owner', hgiven, hentry, -⟩
  · rw [lastGiven, hgiven, lastGiven]
  · rw [lastGiven, hgiven, List.find?_cons_of_neg, lastGiven]
    simp only [decide_eq_true_eq]
    rintro ⟨rfl, rfl⟩
    rw [h] at hentry
    cases hentry

theorem Kept.call {limits : ι → OutcomeLimits} (h : Kept limits s)
    (c : Σ i, LedgerCall (P i)) : Kept limits (s.call c) := by
  refine ⟨fun j => ?_, fun j => ?_, ?_, ?_, fun j owner key terminal hlookup => ?_⟩
  · by_cases hj : j = c.1
    · subst hj
      rw [call_self, (call_effect (s.ledgers c.1) s.sequence c.2).limits, h.limits_eq]
    · rw [call_other c hj, h.limits_eq]
  · by_cases hj : j = c.1
    · subst hj
      rw [call_self]
      exact (h.booked c.1).call s.sequence c.2
    · rw [call_other c hj]
      exact h.booked j
  · intro given hmem
    rcases call_given c with ⟨hgiven, hnext⟩ | ⟨key, owner, hgiven, -, hnext⟩ <;>
      rw [hgiven] at hmem
    · exact (h.given_lt given hmem).trans_eq hnext.symm
    · refine lt_of_lt_of_eq ?_ hnext.symm
      rcases List.mem_cons.mp hmem with rfl | hmem
      · exact Nat.lt_succ_self _
      · exact (h.given_lt given hmem).trans (Nat.lt_succ_self _)
  · rcases call_given c with ⟨hgiven, -⟩ | ⟨key, owner, hgiven, -⟩ <;> rw [hgiven]
    · exact h.increasing
    · exact List.pairwise_cons.mpr ⟨h.given_lt, h.increasing⟩
  · by_cases hj : j = c.1
    · subst hj
      rw [call_self, lookup_eq_some] at hlookup
      have hstep := (call_effect (s.ledgers c.1) s.sequence c.2).entry key
      rw [hlookup] at hstep
      -- a result was there before the call, or the call gave it its sequence
      generalize hbefore : (s.ledgers c.1).entry key = before at hstep
      cases hstep with
      | kept =>
        rw [call_lastGiven c hbefore]
        exact h.terminal_given c.1 owner key terminal (lookup_eq_some.mpr hbefore)
      | finished _ _ hs hg =>
        rw [lastGiven, Ledgers.call, hg, hs]
        exact List.find?_cons_of_pos (by simp)
    · rw [call_other c hj] at hlookup
      rw [call_lastGiven c (lookup_eq_some.mp hlookup)]
      exact h.terminal_given j owner key terminal hlookup

/-- A failed call leaves everything as it is. -/
theorem call_of_error {c : Σ i, LedgerCall (P i)}
    (h : ((s.ledgers c.1).call s.sequence c.2).error ≠ none) : s.call c = s := by
  obtain ⟨hledger, hsequence, hgiven⟩ := (call_effect (s.ledgers c.1) s.sequence c.2).failed h
  rw [call, hledger, hsequence, hgiven, Function.update_eq_self]
  rfl

/-- A result stays as it is while its record is held. -/
theorem call_terminal (c : Σ i, LedgerCall (P i)) {i : ι} {key : ActionKey}
    {owner owner' : ℕ} {terminal : TerminalOutcome (P i)} {found : Option (TerminalOutcome (P i))}
    (h : (s.ledgers i).entry key = some (owner, some terminal))
    (h' : ((s.call c).ledgers i).entry key = some (owner', found)) :
    owner' = owner ∧ found = some terminal := by
  by_cases hi : i = c.1
  · subst hi
    have hstep := (call_effect (s.ledgers c.1) s.sequence c.2).entry key
    rw [call_self] at h'
    rw [h, h'] at hstep
    cases hstep
    exact ⟨rfl, rfl⟩
  · rw [call_other c hi, h] at h'
    cases h'
    exact ⟨rfl, rfl⟩

/-- **Bookkeeping over every run of calls on ledgers that share a sequencer.** -/
theorem ledgers_booked {recordBytes : ι → ℕ} {limits : ι → OutcomeLimits}
    {start : ∀ i, OutcomeLedger (P i)}
    (hstart : ∀ i, OutcomeLedger.new (recordBytes i) (limits i) = .ok (start i))
    (hwords : ∀ i, Words (limits i)) (calls : List (Σ i, LedgerCall (P i))) :
    let s := run Ledgers.call ⟨start, 1, []⟩ calls
    (∀ i, (s.ledgers i).limits = limits i ∧ (s.ledgers i).Booked) ∧
      (s.given.Pairwise fun later earlier => earlier.sequence < later.sequence) ∧
      (∀ i owner key terminal, (s.ledgers i).lookup owner key = some terminal →
        s.lastGiven i key = some ⟨i, key, terminal.sequence⟩) ∧
      (∀ i (key : ActionKey) record, (s.ledgers i).records[key]? = some record →
        record.terminal = none ∨ record.reported = false ∧ record.deliveryClosed = false →
        ∀ now, ((s.ledgers i).expire now).records[key]? = some record) ∧
      (∀ c i key owner terminal owner' found, (s.ledgers i).entry key =
        some (owner, some terminal) → ((s.call c).ledgers i).entry key = some (owner', found) →
        owner' = owner ∧ found = some terminal) ∧
      (∀ i owner keys, owner ≠ 0 → (s.ledgers i).Fresh keys →
        ((∃ granted, ((s.ledgers i).reserve owner keys).2 = .ok granted) ↔
          keys.length ≤ (s.ledgers i).availableFor owner)) ∧
      (∀ i keys, (s.ledgers i).reserve 0 keys = (s.ledgers i, .error .invalid)) ∧
      ∀ c, ((s.ledgers c.1).call s.sequence c.2).error ≠ none → s.call c = s := by
  intro s
  have hkept : Kept limits s := by
    refine run_invariant (I := Kept limits) (fun s c hs => hs.call c) ⟨fun i => ?_, fun i => ?_, ?_,
      ?_, ?_⟩ calls
    · exact (new_entry (hstart i) ⟨0, 0, 0, 0⟩).2
    · exact Booked.new (hstart i)
    · simp
    · simp
    · intro i owner key terminal hlookup
      rw [lookup_eq_some, (new_entry (hstart i) key).1] at hlookup
      cases hlookup
  refine ⟨fun i => ⟨hkept.limits_eq i, hkept.booked i⟩, hkept.increasing, hkept.terminal_given,
    fun i key record hr hkeep now => expire_keeps hr hkeep now,
    fun c i key owner terminal owner' found h h' => call_terminal c h h',
    fun i owner keys howner hkeys => ?_, fun i keys => if_pos (.inl rfl),
    fun c herror => call_of_error herror⟩
  exact reserve_fresh_iff (hkept.booked i) (by rw [hkept.limits_eq]; exact hwords i) howner hkeys

end Ledgers
end sharing

namespace Ledgers

/-- Room for two records of an owner and three in all. -/
def smallLimits : OutcomeLimits := ⟨3, 2, 8192, 64, 10⟩

def smallLedger : OutcomeLedger (List UInt8) := ⟨smallLimits, ∅, ∅, ∅, 384, false⟩

/-- The key of a command's first action. -/
def firstAction (command : ℕ) : ActionKey := ⟨1, 1, command, 0⟩

/-- There is room for owner 0, but nothing is reserved for it. -/
theorem owner_zero_refused :
    OutcomeLedger.new 64 smallLimits = .ok smallLedger ∧ smallLedger.Fresh [firstAction 1] ∧
      smallLedger.availableFor 0 = 2 ∧
      (smallLedger.reserve 0 [firstAction 1]).2 = .error .invalid := by
  refine ⟨rfl, ⟨by decide, by decide, by decide, by decide, ?_⟩, by decide +kernel,
    by decide +kernel⟩
  intro key _
  exact Std.ExtTreeMap.getElem?_empty

/-- A reservation and a result in each of two ledgers. -/
def twoResults : List (Σ _ : Bool, LedgerCall (List UInt8)) :=
  [⟨true, .reserve 7 [firstAction 1, firstAction 2]⟩, ⟨false, .reserve 7 [firstAction 1]⟩,
    ⟨true, .finish 7 (firstAction 2) 1 [2]⟩, ⟨false, .finish 7 (firstAction 1) 1 [1]⟩]

theorem ledgers_booked_two :
    (run Ledgers.call ⟨fun _ => smallLedger, 1, []⟩ twoResults).given =
        [⟨false, firstAction 1, 2⟩, ⟨true, firstAction 2, 1⟩] ∧
      ∀ i, ((run Ledgers.call ⟨fun _ => smallLedger, 1, []⟩ twoResults).ledgers i).Booked :=
  ⟨by decide +kernel, fun i =>
    ((@ledgers_booked Bool _ (fun _ => List UInt8) _ _ (fun _ => 64) (fun _ => smallLimits)
      (fun _ => smallLedger) (fun _ => rfl) (fun _ => ⟨by decide, by decide⟩) twoResults).1 i).2⟩

end Ledgers
end Net
