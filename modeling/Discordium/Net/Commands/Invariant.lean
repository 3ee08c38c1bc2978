import Discordium.Lib.Maps
import Discordium.Net.Commands.Inbox

/-!
# Net — Commands — Invariant

What one call can do to a command inbox, and the invariant every call keeps.  `AdmitStep` lists the
outcomes of `admitCommand`; `prepareNext_cases` and `CommitStep` do the same for the other two
calls.  `WellFormed` says that the audit order lists distinct audited sequences, that every pending
command lies ahead of the finalized tick under an accepted and pinned audit record of its own, and
that the prepared input is the selection of the next tick.  A well-formed inbox does not panic.
-/

namespace Net
open Lib
open Std (ExtTreeMap)

/-- The admissions that leave a record in the audit. -/
def Admission.isRecorded : Admission → Bool
  | .accepted _ | .late | .future | .targetOccupied => true
  | .duplicate | .retiredSequence => false

namespace CommandInbox
variable {I A F : Type} [DecidableEq F]
variable {fingerprint : Command I A → ℕ → Option (F × ℕ)}
variable {inbox inbox' : CommandInbox I A F} {command : Command I A}

/-! ### What a call can do -/

/-- The outcomes of one `admitCommand`. -/
inductive AdmitStep (fingerprint : Command I A → ℕ → Option (F × ℕ)) (inbox : CommandInbox I A F)
    (command : Command I A) : CommandInbox I A F → Answer CommandError Admission → Prop
  /-- Nothing is recorded and the answer says so. -/
  | refused (submissions : ℕ) (answer : Answer CommandError Admission)
      (h : ∀ a, answer = .ok a → a.isRecorded = false) (hp : answer ≠ .panic) :
      AdmitStep fingerprint inbox command { inbox with submissions } answer
  /-- The recorded rejection of the same command is repeated. -/
  | repeated (submissions : ℕ) (previous : AuditRecord F) (bytes : ℕ) (admission : Admission)
      (hf : fingerprint command inbox.limits.maxCommandBytes = some (previous.fingerprint, bytes))
      (ha : inbox.audit[command.sequence]? = some previous) (hp : previous.admission = admission)
      (hn : admission = .late ∨ admission = .targetOccupied) :
      AdmitStep fingerprint inbox command { inbox with submissions } (.ok admission)
  /-- The command is classified and recorded. -/
  | recorded (submissions : ℕ) (fp : F) (bytes : ℕ) (admission : Admission)
      (reserved : CommandInbox I A F)
      (hf : fingerprint command inbox.limits.maxCommandBytes = some (fp, bytes))
      (hs : inbox.screen command.sequence fp = none)
      (hc : inbox.classify command.target = some admission)
      (hr : reserveAudit { inbox with submissions } command.sequence = (reserved, .ok ())) :
      AdmitStep fingerprint inbox command (reserved.record command fp admission) (.ok admission)
  | slackPanic (submissions : ℕ) (hc : inbox.classify command.target = none) :
      AdmitStep fingerprint inbox command { inbox with submissions } .panic
  | reservePanic (submissions : ℕ)
      (hr : (reserveAudit { inbox with submissions } command.sequence).2 = .panic) :
      AdmitStep fingerprint inbox command { inbox with submissions } .panic

variable {sequence : ℕ} {fp : F} {answer : Answer CommandError Admission} {admission : Admission}
  {audit : ExtTreeMap ℕ (AuditRecord F)}

omit [DecidableEq F] in
/-- A failed reservation changes nothing. -/
theorem reserveAudit_unchanged (h : (inbox.reserveAudit sequence).2 ≠ .ok ()) :
    (inbox.reserveAudit sequence).1 = inbox := by
  unfold reserveAudit at h ⊢
  split_ifs at h ⊢
  · rfl
  · split at h <;> simp_all
    split at h <;> simp_all
  · exact absurd rfl h

/-- An answer given by the audit or the floors alone records nothing new. -/
theorem screen_cases (h : inbox.screen sequence fp = some answer) :
    ((∀ a, answer = .ok a → a.isRecorded = false) ∧ answer ≠ .panic) ∨
      ∃ previous admission, inbox.audit[sequence]? = some previous ∧ previous.fingerprint = fp ∧
        answer = .ok admission ∧ previous.admission = admission ∧
        (admission = .late ∨ admission = .targetOccupied) := by
  unfold screen at h
  split at h
  · rename_i previous ha
    split at h
    · cases h
      exact .inl (by simp)
    · rename_i hfp
      have hfp : previous.fingerprint = fp := not_not.mp hfp
      split at h
      · cases h
        exact .inl (by simp [Admission.isRecorded])
      · rename_i hp
        cases h
        exact .inr ⟨previous, _, ha, hfp, rfl, hp, .inl rfl⟩
      · rename_i hp
        cases h
        exact .inr ⟨previous, _, ha, hfp, rfl, hp, .inr rfl⟩
      · cases h
  · split_ifs at h <;> cases h <;> exact .inl (by simp [Admission.isRecorded])

/-- **Inversion of `admitCommand`.** -/
theorem admit_step {connection : ℕ} {rules : CommandRules I A}
    (h : admitCommand fingerprint inbox connection command rules = (inbox', answer)) :
    AdmitStep fingerprint inbox command inbox' answer := by
  have hinbox : (admitCommand fingerprint inbox connection command rules).1 = inbox' :=
    congrArg Prod.fst h
  have hanswer : (admitCommand fingerprint inbox connection command rules).2 = answer :=
    congrArg Prod.snd h
  rw [← hinbox, ← hanswer]
  unfold admitCommand
  split
  · exact .refused inbox.submissions _ (by simp) (by simp)
  split
  · exact .refused inbox.submissions _ (by simp) (by simp)
  dsimp only
  split
  · exact .refused _ _ (by simp) (by simp)
  split
  · exact .refused _ _ (by simp) (by simp)
  rename_i fp bytes hf
  split
  · rename_i answer hs
    rcases screen_cases hs with ⟨hr, hp⟩ | ⟨previous, admission, ha, rfl, rfl, hp, hn⟩
    · exact .refused _ _ hr hp
    · exact .repeated _ previous bytes admission hf ha hp hn
  rename_i hs
  split
  · rename_i hc
    exact .slackPanic _ hc
  rename_i admission hc
  have hu := @reserveAudit_unchanged I A F { inbox with submissions := inbox.submissions + 1 }
    command.sequence
  split
  · rename_i reserved hr
    exact .recorded _ fp bytes admission reserved hf hs hc hr
  · rename_i reserved error hr
    rw [hr] at hu
    rw [show reserved = _ from hu (by simp)]
    exact .refused _ _ (by simp) (by simp)
  · rename_i reserved hr
    have hp := congrArg Prod.snd hr
    rw [hr] at hu
    rw [show reserved = _ from hu (by simp)]
    exact .reservePanic _ hp

omit [DecidableEq F] in
/-- The admission of a command, by where its target lies. -/
theorem classify_cases {target : ℕ} (h : inbox.classify target = some admission) :
    admission.isRecorded = true ∧
      (admission.isAccepted = true → inbox.cutoff < target ∧ inbox.pending[target]? = none) := by
  unfold classify at h
  split_ifs at h with hl hf hp
  · cases h; exact ⟨rfl, nofun⟩
  · cases h; exact ⟨rfl, nofun⟩
  · cases h; exact ⟨rfl, nofun⟩
  · obtain ⟨slack, -, rfl⟩ := Option.map_eq_some_iff.mp h
    rw [contains_eq_isSome, Option.not_isSome_iff_eq_none] at hp
    exact ⟨rfl, fun _ => ⟨not_le.mp hl, hp⟩⟩

omit [DecidableEq F] in
/-- A prepared answer is the selection of the tick after the finalized one. -/
theorem prepareNext_cases (inbox : CommandInbox I A F) (rules : CommandRules I A) :
    (∃ error, inbox.prepareNext rules = (inbox, .err error)) ∨
    ∃ prepared : PreparedInput I A,
      inbox.prepareNext rules = ({ inbox with prepared := some prepared }, .ok prepared) ∧
      inbox.prepared = none ∧ prepared.tick = inbox.finalized + 1 ∧
      prepared.sequence = inbox.pending[prepared.tick]?.map (·.sequence) ∧
      ∀ c, inbox.pending[prepared.tick]? = some c →
        prepared.input = c.input ∧ prepared.actions = c.actions := by
  unfold prepareNext
  split
  · exact .inl ⟨_, rfl⟩
  rename_i hp
  have hp : inbox.prepared = none := by simpa using hp
  split
  · exact .inl ⟨_, rfl⟩
  rename_i tick ht
  have ht : tick = inbox.finalized + 1 := (checkedNext_eq_some.mp ht).1
  split
  · exact .inl ⟨_, rfl⟩
  split
  · rename_i c hc
    refine .inr ⟨_, rfl, hp, ht, by simp [hc], fun c' hc' => ?_⟩
    cases hc.symm.trans hc'
    exact ⟨rfl, rfl⟩
  rename_i hc
  dsimp only
  split
  · exact .inl ⟨_, rfl⟩
  · refine .inr ⟨_, rfl, hp, ht, by simp [hc], fun c' hc' => ?_⟩
    cases hc.symm.trans hc'

/-- The outcomes of one `commit`. -/
inductive CommitStep (inbox : CommandInbox I A F) :
    CommandInbox I A F → Answer CommandError FinalizedReceipt → Prop
  | refused (error : CommandError) : CommitStep inbox inbox (.err error)
  | substituted (prepared : PreparedInput I A) (inbox' : CommandInbox I A F)
      (hp : inbox.prepared = some prepared) (hs : prepared.sequence = none)
      (hf : inbox'.finalized = prepared.tick) (hn : inbox'.prepared = none)
      (hq : inbox'.pending = inbox.pending) (ha : inbox'.audit = inbox.audit)
      (ho : inbox'.auditOrder = inbox.auditOrder)
      (hr : inbox'.retiredSequence = inbox.retiredSequence) (hl : inbox'.limits = inbox.limits) :
      CommitStep inbox inbox' (.ok (receiptOf prepared))
  | executed (prepared : PreparedInput I A) (sequence : ℕ) (record : AuditRecord F)
      (inbox' : CommandInbox I A F)
      (hp : inbox.prepared = some prepared) (hs : prepared.sequence = some sequence)
      (hf : inbox'.finalized = prepared.tick) (hn : inbox'.prepared = none)
      (hq : inbox'.pending = inbox.pending.erase prepared.tick)
      (hd : inbox.audit[sequence]? = some record)
      (ha : inbox'.audit = inbox.audit.insert sequence { record with pending := false })
      (ho : inbox'.auditOrder = inbox.auditOrder)
      (hr : inbox'.retiredSequence = inbox.retiredSequence) (hl : inbox'.limits = inbox.limits) :
      CommitStep inbox inbox' (.ok (receiptOf prepared))
  | unaudited (prepared : PreparedInput I A) (sequence : ℕ) (inbox' : CommandInbox I A F)
      (hp : inbox.prepared = some prepared) (hs : prepared.sequence = some sequence)
      (hd : inbox.audit[sequence]? = none) : CommitStep inbox inbox' .panic

omit [DecidableEq F] in
/-- **Inversion of `commit`.** -/
theorem commit_step {tick : ℕ} {answer : Answer CommandError FinalizedReceipt}
    (h : inbox.commit tick = (inbox', answer)) : CommitStep inbox inbox' answer := by
  have hinbox : (inbox.commit tick).1 = inbox' := congrArg Prod.fst h
  have hanswer : (inbox.commit tick).2 = answer := congrArg Prod.snd h
  rw [← hinbox, ← hanswer]
  unfold commit
  split
  · exact .refused _
  rename_i prepared hp
  split
  · exact .refused _
  rename_i ht
  have ht : prepared.tick = tick := not_not.mp ht
  subst ht
  split
  · rename_i hs
    exact .substituted prepared _ hp hs rfl rfl rfl rfl rfl rfl rfl
  rename_i sequence hs
  dsimp only
  split
  · rename_i hd
    exact .unaudited prepared sequence _ hp hs hd
  · rename_i record hd
    exact .executed prepared sequence record _ hp hs rfl rfl rfl hd rfl rfl rfl rfl

/-! ### Well-formed inboxes -/

/-- The invariant of a command inbox. -/
structure WellFormed (inbox : CommandInbox I A F) : Prop where
  order_audited : ∀ s : ℕ, s ∈ inbox.auditOrder → ∃ r, inbox.audit[s]? = some r
  order_nodup : inbox.auditOrder.Nodup
  pending_ahead : ∀ (T : ℕ) (c : Command I A), inbox.pending[T]? = some c → c.target = T ∧
    inbox.finalized < T
  pending_audited : ∀ (T : ℕ) (c : Command I A), inbox.pending[T]? = some c →
    ∃ r, inbox.audit[c.sequence]? = some r ∧ r.pending = true ∧ r.admission.isAccepted = true
  pending_distinct : ∀ (T T' : ℕ) (c c' : Command I A), inbox.pending[T]? = some c →
    inbox.pending[T']? = some c' → c.sequence = c'.sequence → T = T'
  prepared_next : ∀ p, inbox.prepared = some p → p.tick = inbox.finalized + 1
  prepared_selects : ∀ p, inbox.prepared = some p →
    p.sequence = inbox.pending[p.tick]?.map (·.sequence)
  prepared_input : ∀ p, inbox.prepared = some p → ∀ c, inbox.pending[p.tick]? = some c →
    p.input = c.input ∧ p.actions = c.actions

omit [DecidableEq F] in
theorem WellFormed.finalized_le_cutoff (h : inbox.WellFormed) : inbox.finalized ≤ inbox.cutoff := by
  unfold cutoff
  cases hp : inbox.prepared with
  | none => exact le_rfl
  | some p => simp [h.prepared_next p hp]

omit [DecidableEq F] in
theorem new_wellFormed {owner : OwnerStream} {initializedAt : ℕ} {limits : CommandLimits}
    (h : new owner initializedAt limits = .ok inbox) : inbox.WellFormed := by
  unfold new at h
  split_ifs at h
  cases h
  constructor <;> simp

/-! ### The audit reservation -/

omit [DecidableEq F] in
/-- The position found is that of an audited record nobody waits for. -/
theorem positionUnpinned_some :
    ∀ {order : List ℕ} {index : ℕ}, positionUnpinned audit order = some (some index) →
      ∃ (s : ℕ) (r : AuditRecord F), order[index]? = some s ∧ audit[s]? = some r ∧ r.pending = false
  | seq :: rest, index, h => by
    unfold positionUnpinned at h
    split at h
    · cases h
    rename_i record hr
    split at h
    · obtain ⟨found, hfound, hmap⟩ := Option.map_eq_some_iff.mp h
      obtain ⟨i, rfl, rfl⟩ := Option.map_eq_some_iff.mp hmap
      obtain ⟨s, r, hs, ha, hp⟩ := positionUnpinned_some hfound
      exact ⟨s, r, by simpa using hs, ha, hp⟩
    · rename_i hp
      cases h
      exact ⟨seq, record, rfl, hr, by simpa using hp⟩

omit [DecidableEq F] in
theorem positionUnpinned_ne_none :
    ∀ {order : List ℕ}, (∀ s : ℕ, s ∈ order → ∃ r, audit[s]? = some r) →
      positionUnpinned audit order ≠ none
  | [], _ => by simp [positionUnpinned]
  | seq :: rest, h => by
    obtain ⟨r, hr⟩ := h seq List.mem_cons_self
    have ih := positionUnpinned_ne_none fun s hs => h s (List.mem_cons_of_mem seq hs)
    unfold positionUnpinned
    rw [hr]
    dsimp only
    split <;> simp [ih]

/-- What a successful reservation for `sequence` leaves: at most one unpinned record is gone, and
the retired floor covers it. -/
structure Reserved (inbox : CommandInbox I A F) (sequence : ℕ)
    (reserved : CommandInbox I A F) : Prop where
  audit_sub : ∀ (s : ℕ) (r : AuditRecord F), reserved.audit[s]? = some r → inbox.audit[s]? = some r
  audit_kept : ∀ (s : ℕ) (r : AuditRecord F), inbox.audit[s]? = some r →
    reserved.audit[s]? = some r ∨ r.pending = false ∧ s ≠ sequence ∧ ∃ floor,
      reserved.retiredSequence = some floor ∧ s ≤ floor
  order_audited : ∀ s : ℕ, s ∈ reserved.auditOrder → s = sequence ∨ ∃ r, reserved.audit[s]? = some r
  order_nodup : reserved.auditOrder.Nodup
  retired_le : ∀ s, (∃ floor, inbox.retiredSequence = some floor ∧ s ≤ floor) →
    ∃ floor, reserved.retiredSequence = some floor ∧ s ≤ floor
  finalized : reserved.finalized = inbox.finalized
  pending : reserved.pending = inbox.pending
  prepared : reserved.prepared = inbox.prepared
  limits : reserved.limits = inbox.limits

theorem raise_le {old : Option ℕ} {s : ℕ}
    (h : s = sequence ∨ ∃ floor, old = some floor ∧ s ≤ floor) :
    ∃ floor, raise old sequence = some floor ∧ s ≤ floor := by
  refine ⟨_, rfl, ?_⟩
  rcases h with rfl | ⟨floor, rfl, hs⟩
  · cases old <;> simp
  · exact hs.trans (le_max_left _ _)

omit [DecidableEq F] in
/-- Appending a sequence outside the audit keeps the order free of repetitions. -/
theorem WellFormed.nodup_append (h : inbox.WellFormed) {order : List ℕ}
    (hsub : order.Sublist inbox.auditOrder)
    (hs : inbox.audit[sequence]? = none) : (order ++ [sequence]).Nodup := by
  refine List.nodup_append.mpr ⟨h.order_nodup.sublist hsub, List.nodup_singleton _, ?_⟩
  rintro a ha b hb rfl
  obtain ⟨r, hr⟩ := h.order_audited a (hsub.subset ha)
  rw [List.mem_singleton] at hb
  subst hb
  cases hs.symm.trans hr

omit [DecidableEq F] in
theorem reserveAudit_spec (h : inbox.WellFormed)
    (hr : inbox.reserveAudit sequence = (inbox', .ok ())) : inbox.Reserved sequence inbox' := by
  unfold reserveAudit at hr
  split at hr
  · cases hr
    exact ⟨fun _ _ h => h, fun _ _ h => .inl h, fun s hs => .inr (h.order_audited s hs),
      h.order_nodup, fun _ h => h, rfl, rfl, rfl, rfl⟩
  rename_i hnew
  rw [contains_eq_isSome, Option.not_isSome_iff_eq_none] at hnew
  split at hr
  · -- a full audit gives up its oldest unpinned record
    split at hr <;> try cases hr
    rename_i index hindex
    obtain ⟨evicted, record, hat, haudit, hunpinned⟩ := positionUnpinned_some hindex
    simp only [hat, Prod.mk.injEq, and_true] at hr
    subst hr
    have hmem : ∀ s ∈ inbox.auditOrder.eraseIdx index, s ∈ inbox.auditOrder ∧ s ≠ evicted := by
      intro s hs
      obtain ⟨j, hj, hjs⟩ := List.mem_eraseIdx_iff_getElem?.mp hs
      refine ⟨List.mem_of_getElem? hjs, ?_⟩
      rintro rfl
      exact hj ((List.getElem?_inj (List.getElem?_eq_some_iff.mp hjs).1 h.order_nodup).mp
        (hjs.trans hat.symm))
    refine ⟨?_, ?_, ?_, ?_, ?_, rfl, rfl, rfl, rfl⟩
    · intro s r hs
      rw [lookup_erase] at hs
      split at hs
      · cases hs
      · exact hs
    · intro s r hs
      rw [lookup_erase]
      split
      · rename_i he
        subst he
        cases haudit.symm.trans hs
        refine .inr ⟨hunpinned, ?_, raise_le (.inl rfl)⟩
        rintro rfl
        cases hnew.symm.trans hs
      · exact .inl hs
    · intro s hs
      rcases List.mem_append.mp hs with hs | hs
      · obtain ⟨hs, hne⟩ := hmem s hs
        exact .inr (by simpa [lookup_erase, hne.symm] using h.order_audited s hs)
      · exact .inl (List.mem_singleton.mp hs)
    · exact h.nodup_append (List.eraseIdx_sublist _ _) hnew
    · exact fun s hs => raise_le (.inr hs)
  · cases hr
    refine ⟨fun _ _ h => h, fun _ _ h => .inl h, fun s hs => ?_,
      h.nodup_append (List.Sublist.refl _) hnew, fun _ h => h, rfl, rfl, rfl, rfl⟩
    rcases List.mem_append.mp hs with hs | hs
    · exact .inr (h.order_audited s hs)
    · exact .inl (List.mem_singleton.mp hs)

/-! ### Every call keeps the invariant -/

/-- A command that reaches classification has no accepted record, and its sequence is above the
retired floor when it has none at all. -/
theorem screen_none (h : inbox.screen sequence fp = none) :
    (∀ r, inbox.audit[sequence]? = some r → r.fingerprint = fp ∧ r.admission.isAccepted = false) ∧
      (inbox.audit[sequence]? = none → ∀ floor, inbox.retiredSequence = some floor →
        floor < sequence) := by
  unfold screen at h
  split at h
  · rename_i previous ha
    rw [ha]
    refine ⟨?_, nofun⟩
    rintro r ⟨⟩
    split_ifs at h with hfp
    refine ⟨not_not.mp hfp, ?_⟩
    split at h <;> simp_all [Admission.isAccepted]
  · rename_i ha
    rw [ha]
    refine ⟨nofun, fun _ floor hfloor => ?_⟩
    rw [hfloor] at h
    split_ifs at h with hret
    simpa using hret

section
variable (h : inbox.WellFormed)
include h

omit [DecidableEq F] in
theorem WellFormed.submissions (submissions : ℕ) : WellFormed { inbox with submissions } :=
  { h with }

/-- Recording a classified command keeps the invariant. -/
theorem WellFormed.recorded
    {reserved : CommandInbox I A F} (hs : inbox.screen command.sequence fp = none)
    (hc : inbox.classify command.target = some admission)
    (hr : inbox.Reserved command.sequence reserved) :
    (reserved.record command fp admission).WellFormed := by
  have hcut := h.finalized_le_cutoff
  have hclass := (classify_cases hc).2
  -- the sequence of a pending command is never the one being recorded
  have hne : ∀ (T : ℕ) (c : Command I A), inbox.pending[T]? = some c →
      command.sequence ≠ c.sequence := by
    intro T c hT heq
    obtain ⟨r, ha, -, hacc⟩ := h.pending_audited T c hT
    have := ((screen_none hs).1 r (heq ▸ ha)).2
    simp_all
  have hpending : ∀ (T : ℕ) (c : Command I A),
      (reserved.record command fp admission).pending[T]? = some c →
        inbox.pending[T]? = some c ∨
          admission.isAccepted = true ∧ T = command.target ∧ c = command := by
    intro T c hT
    rw [record_pending, hr.pending] at hT
    split_ifs at hT with hacc
    · rw [lookup_insert] at hT
      split_ifs at hT with heq
      · exact .inr ⟨hacc, heq.symm, (Option.some.inj hT).symm⟩
      · exact .inl hT
    · exact .inl hT
  -- the prepared tick is at the cutoff, out of reach of an accepted command
  have hprepared : ∀ p, inbox.prepared = some p →
      (reserved.record command fp admission).pending[p.tick]? = inbox.pending[p.tick]? := by
    intro p hp
    rw [record_pending, hr.pending]
    split_ifs with hacc
    · have hlt := (hclass hacc).1
      simp only [cutoff, hp, Option.elim_some] at hlt
      rw [lookup_insert, if_neg hlt.ne']
    · rfl
  constructor
  · intro s hs'
    rw [record_auditOrder] at hs'
    rw [record_audit, lookup_insert]
    split_ifs with heq
    · exact ⟨_, rfl⟩
    · exact (hr.order_audited s hs').resolve_left (Ne.symm heq)
  · simpa using hr.order_nodup
  · intro T c hT
    rw [record_finalized, hr.finalized]
    rcases hpending T c hT with hT | ⟨hacc, rfl, rfl⟩
    · exact h.pending_ahead T c hT
    · exact ⟨rfl, hcut.trans_lt (hclass hacc).1⟩
  · intro T c hT
    rw [record_audit]
    rcases hpending T c hT with hT | ⟨hacc, rfl, rfl⟩
    · obtain ⟨r, ha, hpin, hacc⟩ := h.pending_audited T c hT
      refine ⟨r, ?_, hpin, hacc⟩
      rw [lookup_insert, if_neg (hne T c hT)]
      rcases hr.audit_kept _ r ha with hk | ⟨hunpinned, -⟩
      · exact hk
      · simp_all
    · exact ⟨_, by rw [lookup_insert, if_pos rfl], hacc, hacc⟩
  · intro T T' c c' hT hT' heq
    rcases hpending T c hT with ho | ⟨-, rfl, rfl⟩ <;>
      rcases hpending T' c' hT' with ho' | ⟨-, rfl, rfl⟩
    · exact h.pending_distinct T T' c c' ho ho' heq
    · exact absurd heq.symm (hne T c ho)
    · exact absurd heq (hne T' c' ho')
    · rfl
  · intro p hp
    rw [record_prepared, hr.prepared] at hp
    rw [record_finalized, hr.finalized]
    exact h.prepared_next p hp
  · intro p hp
    rw [record_prepared, hr.prepared] at hp
    rw [hprepared p hp]
    exact h.prepared_selects p hp
  · intro p hp
    rw [record_prepared, hr.prepared] at hp
    rw [hprepared p hp]
    exact h.prepared_input p hp

theorem WellFormed.admitCommand
    (hstep : AdmitStep fingerprint inbox command inbox' answer) : inbox'.WellFormed := by
  cases hstep with
  | refused n answer => exact h.submissions n
  | repeated n previous bytes admission hf ha hp hn => exact h.submissions n
  | recorded n fp bytes admission reserved hf hs hc hr =>
    exact (h.submissions n).recorded hs hc (reserveAudit_spec (h.submissions n) hr)
  | slackPanic n hc => exact h.submissions n
  | reservePanic n hr => exact h.submissions n

omit [DecidableEq F] in
theorem WellFormed.prepareNext (rules : CommandRules I A) :
    (inbox.prepareNext rules).1.WellFormed := by
  rcases prepareNext_cases inbox rules with ⟨error, he⟩ | ⟨prepared, he, -, htick, hseq, hin⟩
  · rw [he]
    exact h
  · rw [he]
    refine { h with prepared_next := ?_, prepared_selects := ?_, prepared_input := ?_ }
    · rintro p ⟨⟩
      exact htick
    · rintro p ⟨⟩
      exact hseq
    · rintro p ⟨⟩
      exact hin

omit [DecidableEq F] in
/-- The prepared command, when there is one, is pending at the prepared tick. -/
theorem WellFormed.prepared_pending {prepared : PreparedInput I A}
    (hp : inbox.prepared = some prepared) (hs : prepared.sequence = some sequence) :
    ∃ c, inbox.pending[prepared.tick]? = some c ∧ c.sequence = sequence ∧
      prepared.input = c.input ∧ prepared.actions = c.actions := by
  have hsel := h.prepared_selects prepared hp
  rw [hs, eq_comm, Option.map_eq_some_iff] at hsel
  obtain ⟨c, hc, rfl⟩ := hsel
  exact ⟨c, hc, rfl, h.prepared_input prepared hp c hc⟩

omit [DecidableEq F] in
theorem WellFormed.commit {answer : Answer CommandError FinalizedReceipt}
    (hstep : CommitStep inbox inbox' answer) (ha : answer ≠ .panic) : inbox'.WellFormed := by
  cases hstep with
  | refused error => exact h
  | substituted prepared _ hp hs hf hn hq haudit ho hr hl =>
    have hnone : inbox.pending[prepared.tick]? = none := by
      simpa [hs] using (h.prepared_selects prepared hp).symm
    refine ⟨?_, ?_, ?_, ?_, ?_, ?_, ?_, ?_⟩ <;>
      simp only [hf, hn, hq, haudit, ho, reduceCtorEq, false_implies, implies_true]
    · exact h.order_audited
    · exact h.order_nodup
    · intro T c hT
      have hne : T ≠ prepared.tick := by
        rintro rfl
        cases hnone.symm.trans hT
      obtain ⟨htarget, hlt⟩ := h.pending_ahead T c hT
      have := h.prepared_next prepared hp
      exact ⟨htarget, by omega⟩
    · exact h.pending_audited
    · exact h.pending_distinct
  | executed prepared sequence record _ hp hs hf hn hq hd haudit ho hr hl =>
    obtain ⟨c₀, hc₀, rfl, -⟩ := h.prepared_pending hp hs
    have hold : ∀ (T : ℕ) (c : Command I A),
        (inbox.pending.erase prepared.tick)[T]? = some c →
          T ≠ prepared.tick ∧ inbox.pending[T]? = some c := by
      intro T c hT
      rw [lookup_erase] at hT
      split_ifs at hT with heq
      exact ⟨Ne.symm heq, hT⟩
    refine ⟨?_, ?_, ?_, ?_, ?_, ?_, ?_, ?_⟩ <;>
      simp only [hf, hn, hq, haudit, ho, reduceCtorEq, false_implies, implies_true]
    · intro s hs'
      rw [lookup_insert]
      split_ifs
      · exact ⟨_, rfl⟩
      · exact h.order_audited s hs'
    · exact h.order_nodup
    · intro T c hT
      obtain ⟨hne, hT⟩ := hold T c hT
      obtain ⟨htarget, hlt⟩ := h.pending_ahead T c hT
      have := h.prepared_next prepared hp
      exact ⟨htarget, by omega⟩
    · intro T c hT
      obtain ⟨hne, hT⟩ := hold T c hT
      rw [lookup_insert, if_neg fun heq => hne (h.pending_distinct _ _ c c₀ hT hc₀ heq.symm)]
      exact h.pending_audited T c hT
    · intro T T' c c' hT hT'
      exact h.pending_distinct T T' c c' (hold T c hT).2 (hold T' c' hT').2
  | unaudited prepared sequence _ hp hs hd => exact absurd rfl ha

end

/-! ### No call panics -/

omit [DecidableEq F] in
theorem WellFormed.classify_ne_none (h : inbox.WellFormed) (target : ℕ) :
    inbox.classify target ≠ none := by
  unfold classify
  split_ifs with hl hf hp
  · simp
  · simp
  · simp
  · have hcut := h.finalized_le_cutoff
    simp only [ne_eq, Option.map_eq_none_iff, checkedSub_eq_none]
    omega

omit [DecidableEq F] in
theorem WellFormed.reserveAudit_ne_panic (h : inbox.WellFormed) (sequence : ℕ) :
    (inbox.reserveAudit sequence).2 ≠ .panic := by
  unfold reserveAudit
  split_ifs
  · simp
  · split
    · rename_i hnone
      exact absurd hnone (positionUnpinned_ne_none h.order_audited)
    · simp
    · rename_i index hindex
      obtain ⟨evicted, record, hat, -⟩ := positionUnpinned_some hindex
      simp [hat]
  · simp

theorem WellFormed.admit_ne_panic (h : inbox.WellFormed)
    (hstep : AdmitStep fingerprint inbox command inbox' answer) : answer ≠ .panic := by
  cases hstep with
  | refused n answer hr hp => exact hp
  | repeated n previous bytes admission hf ha hp hn => simp
  | recorded n fp bytes admission reserved hf hs hc hr => simp
  | slackPanic n hc => exact absurd hc (h.classify_ne_none _)
  | reservePanic n hr => exact absurd hr ((h.submissions n).reserveAudit_ne_panic _)

omit [DecidableEq F] in
theorem WellFormed.commit_ne_panic (h : inbox.WellFormed)
    {answer : Answer CommandError FinalizedReceipt}
    (hstep : CommitStep inbox inbox' answer) : answer ≠ .panic := by
  cases hstep with
  | refused error => simp
  | substituted prepared _ hp hs hf hn hq haudit ho hr hl => simp
  | executed prepared sequence record _ hp hs hf hn hq hd haudit ho hr hl => simp
  | unaudited prepared sequence _ hp hs hd =>
    obtain ⟨c, hc, rfl, -⟩ := h.prepared_pending hp hs
    obtain ⟨r, hr, -⟩ := h.pending_audited _ c hc
    cases hd.symm.trans hr

end CommandInbox
end Net
