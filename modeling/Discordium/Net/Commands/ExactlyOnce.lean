import Discordium.Lib.Machine
import Discordium.Net.Commands.Invariant

/-!
# Net — Commands — Exactly once

Whole runs of one command inbox.  A run is a list of calls in any order; its history keeps every
call with the answer it got.  `Consistent` ties the inbox to that history: every recorded submission
of a sequence is the same command, every accepted command is pending or executed at its target, and
every receipt is the finalization of the next tick.  From it, `exactly_once`: the committed ticks
are consecutive, a tick executes the command accepted for it or substitutes, and nothing runs twice.
-/

namespace Net
open Lib
open Std (ExtTreeMap)

namespace CommandInbox
variable {I A F : Type} [DecidableEq F]

/-! ### Calls and histories -/

/-- A call on the inbox; the rules are the game's answers during that call. -/
inductive Call (I A : Type) where
  | admitCommand (connection : ℕ) (command : Command I A) (rules : CommandRules I A)
  | prepareNext (rules : CommandRules I A)
  | commit (tick : ℕ)

/-- A call with the answer it got. -/
inductive Event (I A : Type) where
  | admitted (command : Command I A) (answer : Answer CommandError Admission)
  | prepared (answer : Answer CommandError (PreparedInput I A))
  | committed (answer : Answer CommandError FinalizedReceipt)

def step (fingerprint : Command I A → ℕ → Option (F × ℕ)) (inbox : CommandInbox I A F) :
    Call I A → CommandInbox I A F × Event I A
  | .admitCommand connection command rules =>
    let (inbox, answer) := inbox.admitCommand fingerprint connection command rules
    (inbox, .admitted command answer)
  | .prepareNext rules =>
    let (inbox, answer) := inbox.prepareNext rules
    (inbox, .prepared answer)
  | .commit tick =>
    let (inbox, answer) := inbox.commit tick
    (inbox, .committed answer)

/-- The inbox after a run, with the history of the run. -/
def history (fingerprint : Command I A → ℕ → Option (F × ℕ)) (inbox : CommandInbox I A F)
    (calls : List (Call I A)) : CommandInbox I A F × List (Event I A) :=
  run (logged (step fingerprint)) (inbox, []) calls

namespace Event

/-- The command of a submission that was answered by a recorded admission. -/
def recorded? : Event I A → Option (Command I A)
  | admitted command (.ok admission) => if admission.isRecorded then some command else none
  | _ => none

/-- The command of a submission that was accepted. -/
def accepted? : Event I A → Option (Command I A)
  | admitted command (.ok admission) => if admission.isAccepted then some command else none
  | _ => none

/-- The input handed out by a preparation. -/
def prepared? : Event I A → Option (PreparedInput I A)
  | prepared (.ok input) => some input
  | _ => none

/-- The receipt of a commit. -/
def receipt? : Event I A → Option FinalizedReceipt
  | committed (.ok receipt) => some receipt
  | _ => none

def panicked : Event I A → Bool
  | admitted _ .panic | prepared .panic | committed .panic => true
  | _ => false

end Event

section
variable (h : List (Event I A))

def recordedIn : List (Command I A) := h.filterMap Event.recorded?
def acceptedIn : List (Command I A) := h.filterMap Event.accepted?
def preparedIn : List (PreparedInput I A) := h.filterMap Event.prepared?
def receiptsIn : List FinalizedReceipt := h.filterMap Event.receipt?

/-- The first submission recorded under a sequence. -/
def firstRecorded (sequence : ℕ) : Option (Command I A) :=
  (recordedIn h).find? (·.sequence = sequence)

@[simp] theorem recordedIn_snoc (e : Event I A) :
    recordedIn (h ++ [e]) = recordedIn h ++ e.recorded?.toList := by
  cases he : e.recorded? <;> simp [recordedIn, he]

@[simp] theorem acceptedIn_snoc (e : Event I A) :
    acceptedIn (h ++ [e]) = acceptedIn h ++ e.accepted?.toList := by
  cases he : e.accepted? <;> simp [acceptedIn, he]

@[simp] theorem preparedIn_snoc (e : Event I A) :
    preparedIn (h ++ [e]) = preparedIn h ++ e.prepared?.toList := by
  cases he : e.prepared? <;> simp [preparedIn, he]

@[simp] theorem receiptsIn_snoc (e : Event I A) :
    receiptsIn (h ++ [e]) = receiptsIn h ++ e.receipt?.toList := by
  cases he : e.receipt? <;> simp [receiptsIn, he]

end

/-- An accepted command was recorded. -/
theorem acceptedIn_sub_recordedIn {h : List (Event I A)} {c : Command I A} (hc : c ∈ acceptedIn h) :
    c ∈ recordedIn h := by
  obtain ⟨e, he, hec⟩ := List.mem_filterMap.mp hc
  refine List.mem_filterMap.mpr ⟨e, he, ?_⟩
  unfold Event.accepted? at hec
  split at hec
  · rename_i command admission
    cases admission <;> simp_all [Event.recorded?, Admission.isAccepted, Admission.isRecorded]
  · cases hec

/-! ### The invariant of a run -/

/-- No two commands share a fingerprint under one encoding cap. -/
def FingerprintInjective (fingerprint : Command I A → ℕ → Option (F × ℕ)) : Prop :=
  ∀ (limit : ℕ) (c c' : Command I A) (fp : F) (n n' : ℕ),
    fingerprint c limit = some (fp, n) → fingerprint c' limit = some (fp, n') → c = c'

/-- The receipt of an executed command. -/
def executedReceipt (c : Command I A) : FinalizedReceipt := ⟨c.target, some c.sequence, .executed⟩

/-- A recorded submission is audited under its fingerprint, or its sequence is retired. -/
def Audited (fingerprint : Command I A → ℕ → Option (F × ℕ)) (inbox : CommandInbox I A F)
    (c : Command I A) : Prop :=
  (∃ r bytes, inbox.audit[c.sequence]? = some r ∧
      fingerprint c inbox.limits.maxCommandBytes = some (r.fingerprint, bytes)) ∨
    inbox.audit[c.sequence]? = none ∧
      ∃ floor, inbox.retiredSequence = some floor ∧ c.sequence ≤ floor

/-- The inbox against the history of its run. -/
structure Consistent (fingerprint : Command I A → ℕ → Option (F × ℕ)) (initializedAt : ℕ)
    (s : CommandInbox I A F × List (Event I A)) : Prop where
  wellFormed : s.1.WellFormed
  no_panic : ∀ e ∈ s.2, e.panicked = false
  recorded_audited : ∀ c ∈ recordedIn s.2, Audited fingerprint s.1 c
  recorded_unique : ∀ c ∈ recordedIn s.2, ∀ c' ∈ recordedIn s.2, c.sequence = c'.sequence → c = c'
  pending_accepted : ∀ (T : ℕ) (c : Command I A), s.1.pending[T]? = some c → c ∈ acceptedIn s.2
  accepted_settled : ∀ c ∈ acceptedIn s.2,
    s.1.pending[c.target]? = some c ∨ executedReceipt c ∈ receiptsIn s.2
  receipts_sound : ∀ r ∈ receiptsIn s.2,
    r = ⟨r.tick, none, .substituted⟩ ∨ ∃ c ∈ acceptedIn s.2, r = executedReceipt c
  receipts_ticks : (receiptsIn s.2).map (·.tick) =
    List.range' (initializedAt + 1) (receiptsIn s.2).length
  finalized_eq : s.1.finalized = initializedAt + (receiptsIn s.2).length
  prepared_kept : ∀ p ∈ preparedIn s.2, s.1.prepared = some p ∨
    ∃ r ∈ receiptsIn s.2, r.tick = p.tick ∧ r.sequence = p.sequence
  prepared_handed : ∀ p, s.1.prepared = some p → p ∈ preparedIn s.2
  prepared_accepted : ∀ p ∈ preparedIn s.2, ∀ sequence, p.sequence = some sequence →
    ∃ c ∈ acceptedIn s.2, c.sequence = sequence ∧ p.input = c.input ∧ p.actions = c.actions

/-! ### One call keeps it -/

section steps
variable {fingerprint : Command I A → ℕ → Option (F × ℕ)} {initializedAt : ℕ}
variable {inbox : CommandInbox I A F} {h : List (Event I A)} {command : Command I A} {fp : F}
  {bytes : ℕ} {c : Command I A} {reserved inbox' : CommandInbox I A F} {admission : Admission}
  {receipt : FinalizedReceipt}

omit [DecidableEq F] in
/-- Every earlier submission recorded under the sequence of a command that reaches the audit is that
command. -/
theorem Consistent.recorded_eq (hc : Consistent fingerprint initializedAt (inbox, h))
    (hinj : FingerprintInjective fingerprint)
    (hf : fingerprint command inbox.limits.maxCommandBytes = some (fp, bytes))
    (hsame : ∀ r, inbox.audit[command.sequence]? = some r → r.fingerprint = fp)
    (hnew : inbox.audit[command.sequence]? = none →
      ∀ floor, inbox.retiredSequence = some floor →
        floor < command.sequence) (hmem : c ∈ recordedIn h) (hseq : c.sequence = command.sequence) :
    c = command := by
  rcases hc.recorded_audited c hmem with ⟨r, n, ha, hfc⟩ | ⟨ha, floor, hfloor, hle⟩
  · rw [hseq] at ha
    rw [hsame r ha] at hfc
    exact hinj _ c command fp n bytes hfc hf
  · rw [hseq] at ha hle
    have := hnew ha floor hfloor
    omega

omit [DecidableEq F] in
/-- A call that leaves the inbox as it was, up to the submission count. -/
theorem Consistent.quiet (hc : Consistent fingerprint initializedAt (inbox, h)) (n : ℕ)
    {e : Event I A}
    (hrec : ∀ c, e.recorded? = some c → Audited fingerprint inbox c ∧
      ∀ c' ∈ recordedIn h, c'.sequence = c.sequence → c' = c)
    (hacc : e.accepted? = none) (hprep : e.prepared? = none) (hreceipt : e.receipt? = none)
    (hpanic : e.panicked = false) :
    Consistent fingerprint initializedAt ({ inbox with submissions := n }, h ++ [e]) where
  wellFormed := hc.wellFormed.submissions n
  no_panic := by
    intro e' he'
    rcases List.mem_append.mp he' with he' | he'
    · exact hc.no_panic e' he'
    · rwa [List.mem_singleton.mp he']
  recorded_audited := by
    intro c hmem
    rcases List.mem_append.mp (recordedIn_snoc h e ▸ hmem) with hmem | hmem
    · exact hc.recorded_audited c hmem
    · exact (hrec c (Option.mem_toList.mp hmem)).1
  recorded_unique := by
    simp only [recordedIn_snoc, List.mem_append, Option.mem_toList]
    rintro c (hm | hm) c' (hm' | hm') heq
    · exact hc.recorded_unique c hm c' hm' heq
    · exact (hrec c' hm').2 c hm heq
    · exact ((hrec c hm).2 c' hm' heq.symm).symm
    · exact Option.some.inj (hm.symm.trans hm')
  pending_accepted := by simpa [hacc] using hc.pending_accepted
  accepted_settled := by simpa [hacc, hreceipt] using hc.accepted_settled
  receipts_sound := by simpa [hacc, hreceipt] using hc.receipts_sound
  receipts_ticks := by simpa [hreceipt] using hc.receipts_ticks
  finalized_eq := by simpa [hreceipt] using hc.finalized_eq
  prepared_kept := by simpa [hprep, hreceipt] using hc.prepared_kept
  prepared_handed := by simpa [hprep] using hc.prepared_handed
  prepared_accepted := by simpa [hprep, hacc] using hc.prepared_accepted

omit [DecidableEq F] in
/-- Recording one more command keeps the earlier recorded ones audited or retired. -/
theorem Audited.recorded (hr : inbox.Reserved command.sequence reserved)
    (hf : fingerprint command inbox.limits.maxCommandBytes = some (fp, bytes))
    (hc : c = command ∨ c.sequence ≠ command.sequence ∧ Audited fingerprint inbox c) :
    Audited fingerprint (reserved.record command fp admission) c := by
  unfold Audited
  rw [record_audit, record_limits, record_retiredSequence, hr.limits, lookup_insert]
  rcases hc with rfl | ⟨hne, ha⟩
  · exact .inl ⟨_, bytes, if_pos rfl, hf⟩
  rw [if_neg hne.symm]
  cases hres : reserved.audit[c.sequence]? with
  | some r =>
    have hold := hr.audit_sub _ r hres
    rcases ha with ⟨r', n, ha, hfc⟩ | ⟨ha, -⟩
    · cases ha.symm.trans hold
      exact .inl ⟨r, n, rfl, hfc⟩
    · cases ha.symm.trans hold
  | none =>
    refine .inr ⟨rfl, ?_⟩
    rcases ha with ⟨r, n, ha, -⟩ | ⟨-, hfloor⟩
    · rcases hr.audit_kept _ r ha with hk | ⟨-, -, hfloor⟩
      · cases hres.symm.trans hk
      · exact hfloor
    · exact hr.retired_le _ hfloor

/-- `admitCommand` recording a classified command. -/
theorem Consistent.recorded (hc : Consistent fingerprint initializedAt (inbox, h))
    (hinj : FingerprintInjective fingerprint)
    (hf : fingerprint command inbox.limits.maxCommandBytes = some (fp, bytes))
    (hs : inbox.screen command.sequence fp = none)
    (hcl : inbox.classify command.target = some admission)
    (hr : inbox.Reserved command.sequence reserved) :
    Consistent fingerprint initializedAt
      (reserved.record command fp admission, h ++ [.admitted command (.ok admission)]) := by
  obtain ⟨hrec, hfree⟩ := classify_cases hcl
  obtain ⟨hsame, hnew⟩ := screen_none hs
  have huniq : ∀ c ∈ recordedIn h, c.sequence = command.sequence → c = command := fun c hmem =>
    hc.recorded_eq hinj hf (fun r ha => (hsame r ha).1) hnew hmem
  have hrecorded : (Event.admitted command (.ok admission)).recorded? = some command := by
    simp [Event.recorded?, hrec]
  have haccepted : (Event.admitted command (.ok admission)).accepted? =
      if admission.isAccepted then some command else none := rfl
  constructor
  · exact hc.wellFormed.recorded hs hcl hr
  · intro e he
    rcases List.mem_append.mp he with he | he
    · exact hc.no_panic e he
    · rw [List.mem_singleton.mp he]
      rfl
  · simp only [recordedIn_snoc, hrecorded, List.mem_append, Option.mem_toList]
    rintro c (hm | hm)
    · refine .recorded hr hf ?_
      by_cases heq : c.sequence = command.sequence
      · exact .inl (huniq c hm heq)
      · exact .inr ⟨heq, hc.recorded_audited c hm⟩
    · exact .recorded hr hf (.inl (Option.some.inj hm).symm)
  · simp only [recordedIn_snoc, hrecorded, List.mem_append, Option.mem_toList,
      Option.some.injEq]
    rintro c (hm | rfl) c' (hm' | rfl) heq
    · exact hc.recorded_unique c hm c' hm' heq
    · exact huniq c hm heq
    · exact (huniq c' hm' heq.symm).symm
    · rfl
  · intro T c hT
    rw [record_pending, hr.pending] at hT
    simp only [acceptedIn_snoc, haccepted, List.mem_append]
    split_ifs at hT with hacc
    · rw [lookup_insert] at hT
      split_ifs at hT
      · exact .inr (by simpa [hacc] using (Option.some.inj hT).symm)
      · exact .inl (hc.pending_accepted T c hT)
    · exact .inl (hc.pending_accepted T c hT)
  · simp only [acceptedIn_snoc, haccepted, receiptsIn_snoc, List.mem_append, record_pending,
      hr.pending]
    rintro c (hm | hm)
    · refine (hc.accepted_settled c hm).imp (fun hT => ?_) .inl
      split_ifs with hacc
      · rw [lookup_insert, if_neg]
        · exact hT
        · intro heq
          cases (hfree hacc).2.symm.trans (heq ▸ hT)
      · exact hT
    · split_ifs at hm with hacc
      · obtain rfl : c = command := by simpa using hm
        exact .inl (by rw [if_pos hacc, lookup_insert, if_pos rfl])
      · simp at hm
  · simp only [acceptedIn_snoc, receiptsIn_snoc, List.mem_append]
    rintro r (hm | hm)
    · exact (hc.receipts_sound r hm).imp_right fun ⟨c, hm, hr⟩ => ⟨c, .inl hm, hr⟩
    · cases hm
  · simpa [Event.receipt?] using hc.receipts_ticks
  · simpa [Event.receipt?, hr.finalized] using hc.finalized_eq
  · simpa [Event.receipt?, Event.prepared?, hr.prepared] using hc.prepared_kept
  · simpa [Event.prepared?, hr.prepared] using hc.prepared_handed
  · simp only [acceptedIn_snoc, preparedIn_snoc, List.mem_append]
    rintro p (hm | hm) sequence hseq
    · obtain ⟨c, hm, hin⟩ := hc.prepared_accepted p hm sequence hseq
      exact ⟨c, .inl hm, hin⟩
    · cases hm

omit [DecidableEq F] in
/-- `prepareNext` fixing the selection of the next tick. -/
theorem Consistent.prepared (hc : Consistent fingerprint initializedAt (inbox, h))
    {prepared : PreparedInput I A} (hnone : inbox.prepared = none)
    (hwf : WellFormed { inbox with prepared := some prepared }) :
    Consistent fingerprint initializedAt
      ({ inbox with prepared := some prepared }, h ++ [.prepared (.ok prepared)]) where
  wellFormed := hwf
  no_panic := by
    intro e he
    rcases List.mem_append.mp he with he | he
    · exact hc.no_panic e he
    · rw [List.mem_singleton.mp he]
      rfl
  recorded_audited := fun c hm => hc.recorded_audited c (by simpa [Event.recorded?] using hm)
  recorded_unique := by simpa [Event.recorded?] using hc.recorded_unique
  pending_accepted := by simpa [Event.accepted?] using hc.pending_accepted
  accepted_settled := by simpa [Event.accepted?, Event.receipt?] using hc.accepted_settled
  receipts_sound := by simpa [Event.accepted?, Event.receipt?] using hc.receipts_sound
  receipts_ticks := by simpa [Event.receipt?] using hc.receipts_ticks
  finalized_eq := by simpa [Event.receipt?] using hc.finalized_eq
  prepared_kept := by
    simp only [preparedIn_snoc, receiptsIn_snoc, List.mem_append]
    rintro p (hm | hm)
    · rcases hc.prepared_kept p hm with hp | ⟨r, hr, heq⟩
      · cases hnone.symm.trans hp
      · exact .inr ⟨r, .inl hr, heq⟩
    · obtain rfl : p = prepared := by simpa [Event.prepared?] using hm
      exact .inl rfl
  prepared_handed := by
    rintro p ⟨⟩
    simp [Event.prepared?]
  prepared_accepted := by
    simp only [preparedIn_snoc, acceptedIn_snoc, List.mem_append]
    rintro p (hm | hm) sequence hseq
    · obtain ⟨c, hm, hin⟩ := hc.prepared_accepted p hm sequence hseq
      exact ⟨c, .inl hm, hin⟩
    · obtain rfl : p = prepared := by simpa [Event.prepared?] using hm
      obtain ⟨c, hpend, hin⟩ := hwf.prepared_pending rfl hseq
      exact ⟨c, .inl (hc.pending_accepted _ c hpend), hin⟩

omit [DecidableEq F] in
/-- A commit changes no recorded fingerprint. -/
theorem Audited.commit {answer : Answer CommandError FinalizedReceipt}
    (hstep : CommitStep inbox inbox' answer) (ha : answer ≠ .panic)
    (hc : Audited fingerprint inbox c) : Audited fingerprint inbox' c := by
  unfold Audited at hc ⊢
  cases hstep with
  | refused error => exact hc
  | substituted prepared _ hp hs hf hn hq haudit ho hr hl => rwa [haudit, hr, hl]
  | executed prepared sequence record _ hp hs hf hn hq hd haudit ho hr hl =>
    rw [haudit, hr, hl, lookup_insert]
    split_ifs with heq
    · subst heq
      rw [hd] at hc
      rcases hc with ⟨r, n, ⟨⟩, hfc⟩ | ⟨hnone, -⟩
      · exact .inl ⟨_, n, rfl, hfc⟩
      · cases hnone
    · exact hc
  | unaudited prepared sequence _ hp hs hd => exact absurd rfl ha

omit [DecidableEq F] in
/-- What a successful commit does to the pending commands: the one of the committed tick, if any, is
the executed one and leaves. -/
theorem WellFormed.commit_pending (hwf : inbox.WellFormed)
    (hstep : CommitStep inbox inbox' (.ok receipt)) :
    (∀ (T : ℕ) (c : Command I A), inbox'.pending[T]? = some c → inbox.pending[T]? = some c) ∧
    (∀ (T : ℕ) (c : Command I A), inbox.pending[T]? = some c →
      inbox'.pending[T]? = some c ∨ receipt = executedReceipt c) ∧
    (receipt = ⟨receipt.tick, none, .substituted⟩ ∨
      ∃ c, inbox.pending[receipt.tick]? = some c ∧ receipt = executedReceipt c) := by
  cases hstep with
  | substituted prepared _ hp hs hf hn hq haudit ho hr hl =>
    rw [hq]
    exact ⟨fun _ _ hT => hT, fun _ _ hT => .inl hT, .inl (by simp [receiptOf, hs])⟩
  | executed prepared sequence record _ hp hs hf hn hq hd haudit ho hr hl =>
    obtain ⟨c₀, hc₀, rfl, -⟩ := hwf.prepared_pending hp hs
    have hreceipt : receiptOf prepared = executedReceipt c₀ := by
      simp [receiptOf, executedReceipt, hs, (hwf.pending_ahead _ c₀ hc₀).1]
    simp only [hq, lookup_erase]
    refine ⟨fun T c hT => ?_, fun T c hT => ?_, .inr ⟨c₀, hc₀, hreceipt⟩⟩
    · split_ifs at hT
      exact hT
    · split_ifs with heq
      · subst heq
        cases hc₀.symm.trans hT
        exact .inr hreceipt
      · exact .inl hT

omit [DecidableEq F] in
/-- What a successful commit does to the tick. -/
theorem WellFormed.commit_tick (hwf : inbox.WellFormed)
    (hstep : CommitStep inbox inbox' (.ok receipt)) :
    ∃ prepared, inbox.prepared = some prepared ∧ inbox'.prepared = none ∧
      inbox'.finalized = inbox.finalized + 1 ∧ receipt.tick = inbox.finalized + 1 ∧
      receipt.tick = prepared.tick ∧ receipt.sequence = prepared.sequence := by
  cases hstep with
  | substituted prepared _ hp hs hf hn hq haudit ho hr hl =>
    have := hwf.prepared_next prepared hp
    exact ⟨prepared, hp, hn, hf.trans this, this, rfl, rfl⟩
  | executed prepared sequence record _ hp hs hf hn hq hd haudit ho hr hl =>
    have := hwf.prepared_next prepared hp
    exact ⟨prepared, hp, hn, hf.trans this, this, rfl, rfl⟩

omit [DecidableEq F] in
/-- `commit` finalizing the prepared tick. -/
theorem Consistent.committed (hc : Consistent fingerprint initializedAt (inbox, h))
    (hstep : CommitStep inbox inbox' (.ok receipt)) :
    Consistent fingerprint initializedAt (inbox', h ++ [.committed (.ok receipt)]) := by
  have hwf : inbox.WellFormed := hc.wellFormed
  obtain ⟨hsub, hkept, hsound⟩ := hwf.commit_pending hstep
  obtain ⟨prepared, hprep, hnone, hfin, htick, hptick, hpseq⟩ := hwf.commit_tick hstep
  have hreceipt : (Event.committed (.ok receipt) : Event I A).receipt? = some receipt := rfl
  have hmem : ∀ {r}, r ∈ receiptsIn (h ++ [(.committed (.ok receipt) : Event I A)]) ↔
      r ∈ receiptsIn h ∨ r = receipt := by
    simp [hreceipt]
  have hlen : (receiptsIn (h ++ [(.committed (.ok receipt) : Event I A)])).length =
      (receiptsIn h).length + 1 := by
    simp [hreceipt]
  have hfinalized : inbox.finalized = initializedAt + (receiptsIn h).length := hc.finalized_eq
  have hticks : (receiptsIn h).map (·.tick) =
      List.range' (initializedAt + 1) (receiptsIn h).length :=
    hc.receipts_ticks
  constructor
  · exact hwf.commit hstep (by simp)
  · intro e he
    rcases List.mem_append.mp he with he | he
    · exact hc.no_panic e he
    · rw [List.mem_singleton.mp he]
      rfl
  · simp only [recordedIn_snoc, Event.recorded?, Option.toList_none, List.append_nil]
    exact fun c hm => (hc.recorded_audited c hm).commit hstep (by simp)
  · simpa [Event.recorded?] using hc.recorded_unique
  · intro T c hT
    simpa [Event.accepted?] using hc.pending_accepted T c (hsub T c hT)
  · intro c hm
    have hm : c ∈ acceptedIn h := by simpa [Event.accepted?] using hm
    rw [hmem]
    rcases hc.accepted_settled c hm with hT | hr
    · exact (hkept _ c hT).imp_right fun heq => .inr heq.symm
    · exact .inr (.inl hr)
  · intro r hr
    simp only [acceptedIn_snoc, Event.accepted?, Option.toList_none, List.append_nil]
    rcases hmem.mp hr with hr | rfl
    · exact hc.receipts_sound r hr
    · exact hsound.imp_right fun ⟨c, hT, heq⟩ => ⟨c, hc.pending_accepted _ c hT, heq⟩
  · rw [hlen, List.range'_concat, ← hticks]
    simp only [receiptsIn_snoc, hreceipt, Option.toList_some, List.map_append, List.map_cons,
      List.map_nil]
    congr 2
    omega
  · rw [hlen, hfin, hfinalized]
    omega
  · intro p hp
    have hp : p ∈ preparedIn h := by simpa [Event.prepared?] using hp
    right
    rcases hc.prepared_kept p hp with hp | ⟨r, hr, heq⟩
    · cases hprep.symm.trans hp
      exact ⟨receipt, hmem.mpr (.inr rfl), hptick, hpseq⟩
    · exact ⟨r, hmem.mpr (.inl hr), heq⟩
  · intro p hp
    cases hnone.symm.trans hp
  · simpa [Event.prepared?, Event.accepted?] using hc.prepared_accepted

/-- **Step lemma.**  Every call keeps the inbox consistent with its history. -/
theorem Consistent.step (hinj : FingerprintInjective fingerprint)
    (s : CommandInbox I A F × List (Event I A)) (call : Call I A)
    (hc : Consistent fingerprint initializedAt s) :
    Consistent fingerprint initializedAt (logged (step fingerprint) s call) := by
  obtain ⟨inbox, h⟩ := s
  cases call with
  | admitCommand connection command rules =>
    simp only [logged, CommandInbox.step]
    generalize hout : inbox.admitCommand fingerprint connection command rules = out
    obtain ⟨inbox', answer⟩ := out
    have hstep := admit_step hout
    have hpanic := hc.wellFormed.admit_ne_panic hstep
    cases hstep with
    | refused n answer hr hp =>
      refine hc.quiet n ?_ ?_ rfl rfl ?_
      · intro c hrec
        cases answer <;> simp_all [Event.recorded?]
      · cases answer with
        | ok a => cases a <;> simp_all [Event.accepted?, Admission.isRecorded, Admission.isAccepted]
        | err e => rfl
        | panic => rfl
      · cases answer <;> simp_all [Event.panicked]
    | repeated n previous bytes admission hf ha hp hn =>
      refine hc.quiet n ?_ (by rcases hn with rfl | rfl <;> rfl) rfl rfl rfl
      intro c hrec
      obtain rfl : command = c := by
        simp only [Event.recorded?] at hrec
        split_ifs at hrec
        exact Option.some.inj hrec
      refine ⟨.inl ⟨previous, bytes, ha, hf⟩, fun c' hm heq => ?_⟩
      refine hc.recorded_eq hinj hf ?_ ?_ hm heq
      · intro r hr
        cases ha.symm.trans hr
        rfl
      · intro hnone
        cases hnone.symm.trans ha
    | recorded n fp bytes admission reserved hf hs hcl hr =>
      have hc' : Consistent fingerprint initializedAt ({ inbox with submissions := n }, h) :=
        { hc with wellFormed := hc.wellFormed.submissions n }
      exact hc'.recorded hinj hf hs hcl (reserveAudit_spec hc'.wellFormed hr)
    | slackPanic n hcl => exact absurd rfl hpanic
    | reservePanic n hr => exact absurd rfl hpanic
  | prepareNext rules =>
    simp only [logged, CommandInbox.step]
    have hwf := hc.wellFormed.prepareNext rules
    rcases prepareNext_cases inbox rules with ⟨error, he⟩ | ⟨prepared, he, hnone, -⟩
    · rw [he]
      exact hc.quiet inbox.submissions (by rintro _ ⟨⟩) rfl rfl rfl rfl
    · rw [he] at hwf ⊢
      exact hc.prepared hnone hwf
  | commit tick =>
    simp only [logged, CommandInbox.step]
    generalize hout : inbox.commit tick = out
    obtain ⟨inbox', answer⟩ := out
    have hstep := commit_step hout
    have hpanic := hc.wellFormed.commit_ne_panic hstep
    cases answer with
    | ok receipt => exact hc.committed hstep
    | err error =>
      cases hstep with
      | refused => exact hc.quiet inbox.submissions (by rintro _ ⟨⟩) rfl rfl rfl rfl
    | panic => exact absurd rfl hpanic

end steps

/-! ### Whole runs -/

/-- What a run of an inbox initialized at `initializedAt` promises about its history. -/
structure ExactlyOnce (initializedAt : ℕ) (h : List (Event I A)) : Prop where
  /-- The committed ticks are consecutive, from the one after the initial tick on. -/
  consecutive : (receiptsIn h).map (·.tick) = List.range' (initializedAt + 1) (receiptsIn h).length
  /-- A tick executes a sequence exactly when a command of that sequence was accepted for it. -/
  executed_iff : ∀ r ∈ receiptsIn h, ∀ sequence,
    r.status = .executed ∧ r.sequence = some sequence ↔
      ∃ c ∈ acceptedIn h, c.sequence = sequence ∧ c.target = r.tick
  /-- A tick no command was accepted for is substituted. -/
  substituted : ∀ r ∈ receiptsIn h, (¬ ∃ c ∈ acceptedIn h, c.target = r.tick) →
    r.status = .substituted ∧ r.sequence = none
  /-- No sequence is executed at two ticks. -/
  once : ∀ r ∈ receiptsIn h, ∀ r' ∈ receiptsIn h, ∀ sequence,
    r.sequence = some sequence → r'.sequence = some sequence → r.tick = r'.tick
  /-- The input handed out for an executed tick is that of the first submission recorded. -/
  handed_out : ∀ p ∈ preparedIn h, ∀ r ∈ receiptsIn h, r.tick = p.tick → r.status = .executed →
    ∃ sequence c, p.sequence = some sequence ∧ r.sequence = some sequence ∧
      firstRecorded h sequence = some c ∧ p.input = c.input ∧ p.actions = c.actions
  /-- No index, no `expect` and no subtraction of the inbox fails. -/
  no_panic : ∀ e ∈ h, e.panicked = false

section runs
variable {fingerprint : Command I A → ℕ → Option (F × ℕ)} {initializedAt : ℕ}
variable {s : CommandInbox I A F × List (Event I A)} {r : FinalizedReceipt} {c : Command I A}

section
variable (hc : Consistent fingerprint initializedAt s)
include hc

omit [DecidableEq F] in
/-- Two receipts of one tick are one receipt. -/
theorem Consistent.receipt_eq {r' : FinalizedReceipt}
    (hr : r ∈ receiptsIn s.2) (hr' : r' ∈ receiptsIn s.2) (heq : r.tick = r'.tick) : r = r' := by
  have hnodup : ((receiptsIn s.2).map (·.tick)).Nodup := by
    rw [hc.receipts_ticks]
    exact List.nodup_range'
  exact List.inj_on_of_nodup_map hnodup hr hr' heq

omit [DecidableEq F] in
/-- A committed tick lies at or below the finalized one. -/
theorem Consistent.receipt_le (hr : r ∈ receiptsIn s.2) : r.tick ≤ s.1.finalized := by
  have hmem : r.tick ∈ (receiptsIn s.2).map (·.tick) := List.mem_map_of_mem hr
  rw [hc.receipts_ticks, List.mem_range'_1] at hmem
  have := hc.finalized_eq
  omega

omit [DecidableEq F] in
/-- The receipt of a tick a command was accepted for is that command's. -/
theorem Consistent.receipt_of_accepted
    (hr : r ∈ receiptsIn s.2) (hm : c ∈ acceptedIn s.2) (htarget : c.target = r.tick) :
    r = executedReceipt c := by
  rcases hc.accepted_settled c hm with hT | hx
  · -- a pending command lies ahead of every committed tick
    have hahead := (hc.wellFormed.pending_ahead _ c hT).2
    have hle := hc.receipt_le hr
    omega
  · exact hc.receipt_eq hr hx htarget.symm

omit [DecidableEq F] in
theorem Consistent.firstRecorded_eq
    (hm : c ∈ recordedIn s.2) : firstRecorded s.2 c.sequence = some c := by
  unfold firstRecorded
  cases hfind : (recordedIn s.2).find? (·.sequence = c.sequence) with
  | none =>
    have := List.find?_eq_none.mp hfind c hm
    simp at this
  | some c' =>
    have hseq : c'.sequence = c.sequence := by simpa using List.find?_some hfind
    rw [hc.recorded_unique c' (List.mem_of_find?_eq_some hfind) c hm hseq]

omit [DecidableEq F] in
theorem Consistent.exactlyOnce : ExactlyOnce initializedAt s.2 where
  consecutive := hc.receipts_ticks
  executed_iff := by
    intro r hr sequence
    constructor
    · rintro ⟨hstatus, hseq⟩
      rcases hc.receipts_sound r hr with heq | ⟨c, hm, heq⟩
      · rw [heq] at hseq
        cases hseq
      · rw [heq] at hseq ⊢
        exact ⟨c, hm, Option.some.inj hseq, rfl⟩
    · rintro ⟨c, hm, rfl, htarget⟩
      rw [hc.receipt_of_accepted hr hm htarget]
      exact ⟨rfl, rfl⟩
  substituted := by
    intro r hr hnone
    rcases hc.receipts_sound r hr with heq | ⟨c, hm, heq⟩
    · rw [heq]
      exact ⟨rfl, rfl⟩
    · exact absurd ⟨c, hm, by rw [heq]; rfl⟩ hnone
  once := by
    intro r hr r' hr' sequence hseq hseq'
    rcases hc.receipts_sound r hr with heq | ⟨c, hm, heq⟩
    · rw [heq] at hseq
      cases hseq
    rcases hc.receipts_sound r' hr' with heq' | ⟨c', hm', heq'⟩
    · rw [heq'] at hseq'
      cases hseq'
    have hsame : c.sequence = c'.sequence := by
      rw [heq] at hseq
      rw [heq'] at hseq'
      exact Option.some.inj (hseq.trans hseq'.symm)
    rw [heq, heq', hc.recorded_unique c (acceptedIn_sub_recordedIn hm) c'
      (acceptedIn_sub_recordedIn hm') hsame]
  handed_out := by
    intro p hp r hr htick hstatus
    have hseq : r.sequence = p.sequence := by
      rcases hc.prepared_kept p hp with hp | ⟨r', hr', htick', hseq'⟩
      · -- a tick still in preparation has no receipt
        have hnext := hc.wellFormed.prepared_next p hp
        have hle := hc.receipt_le hr
        omega
      · rw [hc.receipt_eq hr hr' (htick.trans htick'.symm), hseq']
    rcases hc.receipts_sound r hr with heq | ⟨c, -, heq⟩
    · rw [heq] at hstatus
      cases hstatus
    have hpseq : p.sequence = some c.sequence := by
      rw [← hseq, heq]
      rfl
    obtain ⟨c', hm', hc', hin⟩ := hc.prepared_accepted p hp c.sequence hpseq
    refine ⟨c.sequence, c', hpseq, hseq.trans hpseq, ?_, hin⟩
    rw [← hc']
    exact hc.firstRecorded_eq (acceptedIn_sub_recordedIn hm')
  no_panic := hc.no_panic

end

omit [DecidableEq F] in
theorem new_consistent {owner : OwnerStream} {limits : CommandLimits} {inbox : CommandInbox I A F}
    (h : new owner initializedAt limits = .ok inbox) :
    Consistent fingerprint initializedAt (inbox, []) := by
  have hwf := new_wellFormed h
  unfold new at h
  split_ifs at h
  cases h
  constructor <;> simp_all [recordedIn, acceptedIn, preparedIn, receiptsIn]

/-- **Exactly-once execution.**  Every run of an inbox, whatever is submitted in whatever order and
whatever the rules answer, commits consecutive ticks, executes at each the command accepted for it
with the input first recorded, executes no sequence twice and never panics. -/
theorem exactly_once (hinj : FingerprintInjective fingerprint) {owner : OwnerStream}
    {limits : CommandLimits} {inbox : CommandInbox I A F}
    (hnew : new owner initializedAt limits = .ok inbox) (calls : List (Call I A)) :
    ExactlyOnce initializedAt (history fingerprint inbox calls).2 :=
  (run_invariant (Consistent.step hinj) (new_consistent hnew) calls).exactlyOnce

end runs

/-- Rules that allow everything, for inputs without content. -/
def openRules : CommandRules Unit Unit where
  ownsAt _ _ := true
  validInput _ := true
  validAction _ := true
  heldInput := id
  neutralInput := ()

/-- The identity as a fingerprint: a command without input and actions encodes to sixty bytes. -/
def plainFingerprint (c : Command Unit Unit) (limit : ℕ) : Option (Command Unit Unit × ℕ) :=
  if 60 ≤ limit then some (c, 60) else none

theorem plainFingerprint_injective : FingerprintInjective plainFingerprint := by
  intro limit c c' fp n n' h h'
  unfold plainFingerprint at h h'
  split_ifs at h h'
  cases h
  cases h'
  rfl

/-- A command for tick two, sent twice, then two ticks: the first is substituted, the second
executes it. -/
theorem exactly_once_two_ticks :
    let owner : OwnerStream := ⟨1, 1, 1, ⟨7, 1⟩, 1⟩
    let command : Command Unit Unit := ⟨owner, 1, 2, (), .empty⟩
    let calls : List (Call Unit Unit) :=
      [.admitCommand 1 command openRules, .admitCommand 1 command openRules, .prepareNext openRules,
        .commit 1, .prepareNext openRules, .commit 2]
    ∃ inbox : CommandInbox Unit Unit (Command Unit Unit), new owner 0 .default = .ok inbox ∧
      receiptsIn (history plainFingerprint inbox calls).2 =
        [⟨1, none, .substituted⟩, ⟨2, some 1, .executed⟩] ∧
      ExactlyOnce 0 (history plainFingerprint inbox calls).2 := by
  intro owner command calls
  exact ⟨_, rfl, by decide, @exactly_once _ _ _ _ _ _ plainFingerprint_injective owner .default _
    rfl calls⟩

end CommandInbox
end Net
