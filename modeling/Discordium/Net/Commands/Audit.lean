import Discordium.Net.Commands.ExactlyOnce

/-!
# Net — Commands — Audit

The bounded audit of a command inbox over whole runs.  `Bounded` adds to the invariant of the inbox
what bounds its memory: pending commands lie in the admission window, every record marked pending is
one of them, the audit order lists exactly the audited sequences, and there are at most as many of
these as the limit says.  A reservation evicts a record nobody waits for; the retired floor covers
it from then on.

**`inbox_bounded`** collects this for every run, with what a failing `admitCommand` says and does:
`AuditFull` means that every record is waited for, and no error changes anything but the submission
count.
-/

namespace Net
open Lib
open Std (ExtTreeMap)

namespace CommandInbox
variable {I A F : Type} {limits : CommandLimits} {inbox inbox' reserved : CommandInbox I A F}
  {command : Command I A}

/-- The bounds of an inbox. -/
structure Bounded (limits : CommandLimits) (inbox : CommandInbox I A F) : Prop where
  wellFormed : inbox.WellFormed
  limits_eq : inbox.limits = limits
  window : ∀ (T : ℕ) (c : Command I A), inbox.pending[T]? = some c →
    T ≤ inbox.finalized + limits.futureTicks
  pinned : ∀ (s : ℕ) (r : AuditRecord F), inbox.audit[s]? = some r → r.pending = true →
    ∃ (T : ℕ) (c : Command I A), inbox.pending[T]? = some c ∧ c.sequence = s
  listed : ∀ (s : ℕ) (r : AuditRecord F), inbox.audit[s]? = some r → s ∈ inbox.auditOrder
  size_le : inbox.audit.size ≤ limits.auditRecords

theorem Bounded.submissions (h : inbox.Bounded limits) (submissions : ℕ) :
    Bounded limits { inbox with submissions } :=
  { h with wellFormed := h.wellFormed.submissions submissions }

/-! ### The reservation -/

/-- A sequence that is not the one at an index is still there when that index is gone. -/
theorem mem_eraseIdx_of_ne {order : List ℕ} {index s evicted : ℕ} (hs : s ∈ order)
    (hat : order[index]? = some evicted) (hne : s ≠ evicted) : s ∈ order.eraseIdx index := by
  obtain ⟨j, hj⟩ := List.mem_iff_getElem?.mp hs
  refine List.mem_eraseIdx_iff_getElem?.mpr ⟨j, ?_, hj⟩
  rintro rfl
  exact hne (Option.some.inj (hj.symm.trans hat))

variable {sequence : ℕ} {answer : Answer CommandError FinalizedReceipt}

/-- A reservation leaves every audited sequence and its own in the order, and room for a new
record. -/
theorem Bounded.reserve (h : inbox.Bounded limits)
    (hr : inbox.reserveAudit sequence = (reserved, .ok ())) :
    sequence ∈ reserved.auditOrder ∧
    (∀ (s : ℕ) (r : AuditRecord F), reserved.audit[s]? = some r → s ∈ reserved.auditOrder) ∧
    reserved.audit.size ≤ limits.auditRecords ∧
    (sequence ∉ reserved.audit → reserved.audit.size < limits.auditRecords) := by
  have hsize := h.size_le
  unfold reserveAudit at hr
  rw [h.limits_eq] at hr
  split at hr
  · rename_i hold
    cases hr
    refine ⟨?_, h.listed, hsize, fun hnone => absurd (ExtTreeMap.mem_iff_contains.mpr hold) hnone⟩
    rw [contains_eq_isSome, Option.isSome_iff_exists] at hold
    obtain ⟨record, hrecord⟩ := hold
    exact h.listed sequence record hrecord
  split at hr
  · rename_i hfull
    split at hr <;> try cases hr
    rename_i index hindex
    obtain ⟨evicted, record, hat, haudit, -⟩ := positionUnpinned_some hindex
    simp only [hat, Prod.mk.injEq, and_true] at hr
    subst hr
    have hlt := size_erase_add_one haudit
    dsimp only
    refine ⟨List.mem_append_right _ List.mem_cons_self, fun s r hs => ?_, by omega,
      fun _ => by omega⟩
    rw [lookup_erase] at hs
    split_ifs at hs with hne
    exact List.mem_append_left _ (mem_eraseIdx_of_ne (h.listed s r hs) hat (Ne.symm hne))
  · rename_i hroom
    cases hr
    dsimp only
    refine ⟨List.mem_append_right _ List.mem_cons_self, fun s r hs => ?_, hsize, fun _ => by omega⟩
    exact List.mem_append_left _ (h.listed s r hs)

/-- A full audit is one whose every record is waited for. -/
theorem Bounded.full (h : inbox.Bounded limits)
    (hr : (inbox.reserveAudit sequence).2 = .err .auditFull) (s : ℕ) (r : AuditRecord F)
    (hs : inbox.audit[s]? = some r) : r.pending = true := by
  have hall : ∀ order : List ℕ, positionUnpinned inbox.audit order = some none →
      s ∈ order → r.pending = true := by
    intro order
    induction order with
    | nil => exact fun _ hmem => absurd hmem List.not_mem_nil
    | cons first order ih =>
      intro hnone hmem
      unfold positionUnpinned at hnone
      split at hnone
      · cases hnone
      rename_i record hrecord
      split at hnone
      · rename_i hpending
        rcases List.mem_cons.mp hmem with rfl | hmem
        · cases hs.symm.trans hrecord
          exact hpending
        · obtain ⟨found, hfound, hmap⟩ := Option.map_eq_some_iff.mp hnone
          rw [Option.map_eq_none_iff] at hmap
          exact ih (hmap ▸ hfound) hmem
      · cases hnone
  unfold reserveAudit at hr
  split at hr
  · cases hr
  split at hr
  · split at hr
    · cases hr
    · rename_i hnone
      exact hall _ hnone (h.listed s r hs)
    · split at hr <;> cases hr
  · cases hr

/-! ### Every call keeps the bounds -/

/-- An accepted command is for a tick of the admission window. -/
theorem classify_window {target : ℕ} {admission : Admission}
    (h : inbox.classify target = some admission) (hacc : admission.isAccepted = true) :
    target ≤ inbox.finalized + inbox.limits.futureTicks := by
  unfold classify at h
  split_ifs at h with hl hf hp
  · cases h; cases hacc
  · cases h; cases hacc
  · cases h; cases hacc
  · exact (not_lt.mp hf).trans (min_le_left _ _)

section admission
variable [DecidableEq F] {fingerprint : Command I A → ℕ → Option (F × ℕ)}

theorem Bounded.recorded (h : inbox.Bounded limits) {fp : F} {admission : Admission}
    (hs : inbox.screen command.sequence fp = none)
    (hc : inbox.classify command.target = some admission)
    (hr : inbox.reserveAudit command.sequence = (reserved, .ok ())) :
    (reserved.record command fp admission).Bounded limits := by
  have hspec := reserveAudit_spec h.wellFormed hr
  obtain ⟨hown, hlisted, hsize, hroom⟩ := h.reserve hr
  refine ⟨h.wellFormed.recorded hs hc hspec, ?_, fun T c hT => ?_, fun s r hsr hpending => ?_,
    fun s r hsr => ?_, ?_⟩
  · rw [record_limits, hspec.limits, h.limits_eq]
  · rw [record_pending, hspec.pending] at hT
    rw [record_finalized, hspec.finalized]
    split_ifs at hT with hacc
    · rw [lookup_insert] at hT
      split_ifs at hT with heq
      · rw [← heq, ← h.limits_eq]
        exact classify_window hc hacc
      · exact h.window T c hT
    · exact h.window T c hT
  · rw [record_audit, lookup_insert] at hsr
    rw [record_pending, hspec.pending]
    split_ifs at hsr with heq
    · -- the record of the command itself is pending when the command is
      cases hsr
      refine ⟨command.target, command, ?_, heq⟩
      rw [if_pos hpending, lookup_insert, if_pos rfl]
    · obtain ⟨T, c, hT, rfl⟩ := h.pinned s r (hspec.audit_sub s r hsr) hpending
      refine ⟨T, c, ?_, rfl⟩
      split_ifs with hacc
      · rw [lookup_insert, if_neg, hT]
        rintro rfl
        cases ((classify_cases hc).2 hacc).2.symm.trans hT
      · exact hT
  · rw [record_audit, lookup_insert] at hsr
    rw [record_auditOrder]
    split_ifs at hsr with heq
    · exact heq ▸ hown
    · exact hlisted s r hsr
  · rw [record_audit, ExtTreeMap.size_insert]
    split_ifs with hold
    · exact hsize
    · exact hroom hold

theorem Bounded.admitCommand (h : inbox.Bounded limits) {answer : Answer CommandError Admission}
    (hstep : AdmitStep fingerprint inbox command inbox' answer) : inbox'.Bounded limits := by
  cases hstep with
  | refused n | repeated n | slackPanic n | reservePanic n => exact h.submissions n
  | recorded n fp bytes admission reserved hf hs hc hr => exact (h.submissions n).recorded hs hc hr

end admission

theorem Bounded.prepareNext (h : inbox.Bounded limits) (rules : CommandRules I A) :
    (inbox.prepareNext rules).1.Bounded limits := by
  have hwf := h.wellFormed.prepareNext rules
  rcases prepareNext_cases inbox rules with ⟨error, he⟩ | ⟨prepared, he, -⟩
  · rw [he]
    exact h
  · rw [he] at hwf ⊢
    exact { h with wellFormed := hwf }

theorem Bounded.commit (h : inbox.Bounded limits)
    (hstep : CommitStep inbox inbox' answer) : inbox'.Bounded limits := by
  have hpanic := h.wellFormed.commit_ne_panic hstep
  have hwf := h.wellFormed.commit hstep hpanic
  cases hstep with
  | refused => exact h
  | substituted prepared _ hp hs hf hn hq ha ho hret hl =>
    refine ⟨hwf, hl.trans h.limits_eq, fun T c hT => ?_, ?_, ?_, ?_⟩
    · have hnext := h.wellFormed.prepared_next prepared hp
      have hold := h.window T c (hq ▸ hT)
      omega
    · rw [ha, hq]
      exact h.pinned
    · rw [ha, ho]
      exact h.listed
    · rw [ha]
      exact h.size_le
  | executed prepared sequence record _ hp hs hf hn hq hd ha ho hret hl =>
    obtain ⟨done, hdone, rfl, -⟩ := h.wellFormed.prepared_pending hp hs
    refine ⟨hwf, hl.trans h.limits_eq, fun T c hT => ?_, fun s r hsr hpending => ?_,
      fun s r hsr => ?_, ?_⟩
    · have hnext := h.wellFormed.prepared_next prepared hp
      rw [hq, lookup_erase] at hT
      split_ifs at hT
      have hold := h.window T c hT
      omega
    · rw [ha, lookup_insert] at hsr
      split_ifs at hsr with heq
      · cases hsr
        cases hpending
      · obtain ⟨T, c, hT, rfl⟩ := h.pinned s r hsr hpending
        refine ⟨T, c, ?_, rfl⟩
        rw [hq, lookup_erase, if_neg, hT]
        rintro rfl
        cases hdone.symm.trans hT
        exact heq rfl
    · rw [ha, lookup_insert] at hsr
      rw [ho]
      split_ifs at hsr with heq
      · exact heq ▸ h.listed _ record hd
      · exact h.listed s r hsr
    · rw [ha, ExtTreeMap.size_insert, if_pos (contains_of_lookup hd)]
      exact h.size_le
  | unaudited => exact absurd rfl hpanic

theorem new_bounded {owner : OwnerStream} {initializedAt : ℕ}
    (h : new owner initializedAt limits = .ok inbox) : inbox.Bounded limits := by
  have hwf := new_wellFormed h
  unfold new at h
  split_ifs at h
  cases h
  refine ⟨hwf, rfl, ?_, ?_, ?_, ?_⟩ <;> simp

/-! ### Eviction -/

/-- The retired floor is at or above a sequence. -/
def Retired (inbox : CommandInbox I A F) (sequence : ℕ) : Prop :=
  ∃ floor, inbox.retiredSequence = some floor ∧ sequence ≤ floor

/-- What a call makes of the sequences: they stay retired, and an audited one stays audited or is
retired. -/
def Retires (inbox inbox' : CommandInbox I A F) : Prop :=
  ∀ s : ℕ, (inbox.Retired s → inbox'.Retired s) ∧
    ∀ r : AuditRecord F, inbox.audit[s]? = some r → inbox'.audit[s]? = none → inbox'.Retired s

theorem Retires.of_same (haudit : ∀ s : ℕ, inbox'.audit[s]? = none → inbox.audit[s]? = none)
    (hretired : inbox'.retiredSequence = inbox.retiredSequence) : Retires inbox inbox' := by
  intro s
  unfold Retired
  rw [hretired]
  refine ⟨id, fun r hr hnone => ?_⟩
  cases (haudit s hnone).symm.trans hr

theorem CommitStep.retires
    (hstep : CommitStep inbox inbox' answer) (hpanic : answer ≠ .panic) : Retires inbox inbox' := by
  cases hstep with
  | refused => exact .of_same (fun _ => id) rfl
  | substituted prepared _ hp hs hf hn hq ha ho hret hl =>
      exact .of_same (fun s => by rw [ha]; exact id) hret
  | executed prepared sequence record _ hp hs hf hn hq hd ha ho hret hl =>
    refine .of_same (fun s hnone => ?_) hret
    rw [ha, lookup_insert] at hnone
    split_ifs at hnone
    exact hnone
  | unaudited => exact absurd rfl hpanic

section runs
variable [DecidableEq F] {fingerprint : Command I A → ℕ → Option (F × ℕ)}

theorem AdmitStep.retires {answer : Answer CommandError Admission} (hwf : inbox.WellFormed)
    (hstep : AdmitStep fingerprint inbox command inbox' answer) : Retires inbox inbox' := by
  cases hstep with
  | refused n | repeated n | slackPanic n | reservePanic n => exact .of_same (fun _ => id) rfl
  | recorded n fp bytes admission reserved hf hs hc hr =>
    have hspec := reserveAudit_spec (hwf.submissions n) hr
    intro s
    unfold Retired
    rw [record_retiredSequence, record_audit, lookup_insert]
    refine ⟨hspec.retired_le s, fun r hrecord hnone => ?_⟩
    split_ifs at hnone
    rcases hspec.audit_kept s r hrecord with hk | ⟨-, -, hfloor⟩
    · cases hk.symm.trans hnone
    · exact hfloor

/-! ### Whole runs -/

theorem Bounded.step (h : inbox.Bounded limits) (c : Call I A) :
    (step fingerprint inbox c).1.Bounded limits ∧ Retires inbox (step fingerprint inbox c).1 := by
  cases c with
  | admitCommand connection command rules =>
    have hstep := @admit_step I A F _ fingerprint inbox _ command _ connection rules rfl
    exact ⟨h.admitCommand hstep, hstep.retires h.wellFormed⟩
  | prepareNext rules =>
    refine ⟨h.prepareNext rules, ?_⟩
    rcases prepareNext_cases inbox rules with ⟨error, he⟩ | ⟨prepared, he, -⟩ <;>
    · simp only [CommandInbox.step, he]
      exact .of_same (fun _ => id) rfl
  | commit tick =>
    have hstep := @commit_step I A F inbox _ tick _ rfl
    exact ⟨h.commit hstep, hstep.retires (h.wellFormed.commit_ne_panic hstep)⟩

variable {owner : OwnerStream} {initializedAt connection : ℕ} {rules : CommandRules I A}

theorem history_bounded
    (hnew : new owner initializedAt limits = .ok inbox) (calls : List (Call I A)) :
    (history fingerprint inbox calls).1.Bounded limits :=
  run_invariant (I := fun s : CommandInbox I A F × List (Event I A) => s.1.Bounded limits)
    (fun _ c h => (h.step c).1) (new_bounded hnew) calls

theorem checkActions_ne_auditFull (slots : List ℕ) (edges : List (ActionEdge A)) :
    checkActions rules slots edges ≠ some .auditFull := by
  induction edges generalizing slots with
  | nil => exact nofun
  | cons edge edges ih =>
    rw [checkActions]
    split_ifs
    · exact nofun
    · exact nofun
    · exact ih _

theorem checkCommand_ne_auditFull :
    checkCommand rules command ≠ some .auditFull := by
  unfold checkCommand
  split_ifs
  · exact nofun
  · exact nofun
  · exact nofun
  · exact checkActions_ne_auditFull _ _

theorem screen_ne_auditFull {sequence : ℕ} {fp : F} :
    inbox.screen sequence fp ≠ some (.err .auditFull) := by
  unfold screen
  split
  · split
    · exact nofun
    · split <;> exact nofun
  · split_ifs <;> exact nofun

/-- `AuditFull` is the answer of the reservation. -/
theorem admitCommand_auditFull
    (h : (inbox.admitCommand fingerprint connection command rules).2 = .err .auditFull) :
    ∃ n, (reserveAudit { inbox with submissions := n } command.sequence).2 = .err .auditFull := by
  unfold CommandInbox.admitCommand at h
  split at h
  · cases h
  split at h
  · cases h
  dsimp only at h
  split at h
  · rename_i hcheck
    cases h
    exact absurd hcheck checkCommand_ne_auditFull
  split at h
  · cases h
  split at h
  · rename_i hscreen
    cases h
    exact absurd hscreen screen_ne_auditFull
  split at h
  · cases h
  split at h
  · cases h
  · rename_i hreserve
    cases h
    exact ⟨_, by rw [hreserve]⟩
  · cases h

theorem admitCommand_err {error : CommandError}
    (h : inbox.admitCommand fingerprint connection command rules = (inbox', .err error)) :
    ∃ n, inbox' = { inbox with submissions := n } := by
  cases admit_step h with
  | refused n => exact ⟨n, rfl⟩

/-- What a call drops from the audit is retired from then on. -/
theorem history_retired (hnew : new owner initializedAt limits = .ok inbox)
    (earlier later : List (Call I A)) (c : Call I A) {s : ℕ} {r : AuditRecord F}
    (hr : (history fingerprint inbox earlier).1.audit[s]? = some r)
    (hnone : (history fingerprint inbox (earlier ++ [c])).1.audit[s]? = none) :
    (history fingerprint inbox (earlier ++ c :: later)).1.Retired s := by
  have hbounded : (history fingerprint inbox earlier).1.Bounded limits :=
    history_bounded hnew earlier
  have hstep : (step fingerprint (history fingerprint inbox earlier).1 c).1.Bounded limits ∧
      Retires _ (step fingerprint (history fingerprint inbox earlier).1 c).1 := hbounded.step c
  have hnext : (history fingerprint inbox (earlier ++ [c])).1 =
      (step fingerprint (history fingerprint inbox earlier).1 c).1 := by
    rw [history, run_append, run_cons, run_nil, logged_fst, history]
  have hretired := (hstep.2 s).2 r hr (hnext ▸ hnone)
  have hlater : history fingerprint inbox (earlier ++ c :: later) =
      run (logged (step fingerprint)) (history fingerprint inbox (earlier ++ [c])) later := by
    rw [history, history, ← run_append, List.append_assoc, List.singleton_append]
  rw [hlater]
  refine (run_invariant (I := fun t : CommandInbox I A F × List (Event I A) =>
    t.1.Bounded limits ∧ t.1.Retired s) (fun t c h => ?_) ?_ later).2
  · exact ⟨(h.1.step c).1, ((h.1.step c).2 s).1 h.2⟩
  · rw [hnext]
    exact ⟨hstep.1, hretired⟩

/-- **The bounded audit.**  Over every run: the pending commands lie in the admission window and
are, one to one, the records marked pending; the audit order lists exactly the audited sequences,
each once; the audit is within its limit; what a call drops from the audit is at or below the
retired floor for good; `AuditFull` is answered only when every record is pending; and an admission
that fails changes nothing but the submission count. -/
theorem inbox_bounded {owner : OwnerStream} {initializedAt : ℕ}
    (hnew : new owner initializedAt limits = .ok inbox) (calls : List (Call I A)) :
    let s := (history fingerprint inbox calls).1
    (∀ (T : ℕ) (c : Command I A), s.pending[T]? = some c →
      c.target = T ∧ s.finalized < T ∧ T ≤ s.finalized + limits.futureTicks) ∧
    (∀ (T : ℕ) (c : Command I A), s.pending[T]? = some c →
      ∃ r, s.audit[c.sequence]? = some r ∧ r.pending = true) ∧
    (∀ (sequence : ℕ) (r : AuditRecord F), s.audit[sequence]? = some r → r.pending = true →
      ∃! c : Command I A, s.pending[c.target]? = some c ∧ c.sequence = sequence) ∧
    (∀ sequence, sequence ∈ s.auditOrder ↔ ∃ r, s.audit[sequence]? = some r) ∧
    s.auditOrder.Nodup ∧
    s.audit.size ≤ limits.auditRecords ∧
    (∀ (earlier later : List (Call I A)) (c : Call I A) (sequence : ℕ) (r : AuditRecord F),
      calls = earlier ++ c :: later →
      (history fingerprint inbox earlier).1.audit[sequence]? = some r →
      (history fingerprint inbox (earlier ++ [c])).1.audit[sequence]? = none →
      ∃ floor, s.retiredSequence = some floor ∧ sequence ≤ floor) ∧
    (∀ connection command rules, (s.admitCommand fingerprint connection command rules).2 =
      .err .auditFull → ∀ (sequence : ℕ) (r : AuditRecord F), s.audit[sequence]? = some r →
        r.pending = true) ∧
    ∀ connection command rules error, (s.admitCommand fingerprint connection command rules).2 =
      .err error → ∃ n, (s.admitCommand fingerprint connection command rules).1 =
        { s with submissions := n } := by
  intro s
  have h : s.Bounded limits := history_bounded hnew calls
  have hwf := h.wellFormed
  refine ⟨fun T c hT => ?_, fun T c hT => ?_, fun sequence r hr hpending => ?_,
    fun sequence => ⟨?_, ?_⟩, hwf.order_nodup, h.size_le, ?_,
    fun connection command rules hfull => ?_,
    fun connection command rules error herr => ?_⟩
  · exact ⟨(hwf.pending_ahead T c hT).1, (hwf.pending_ahead T c hT).2, h.window T c hT⟩
  · obtain ⟨r, hr, hpending, -⟩ := hwf.pending_audited T c hT
    exact ⟨r, hr, hpending⟩
  · obtain ⟨T, c, hT, rfl⟩ := h.pinned sequence r hr hpending
    obtain rfl := (hwf.pending_ahead T c hT).1
    refine ⟨c, ⟨hT, rfl⟩, fun c' hc' => ?_⟩
    have hsame := hwf.pending_distinct _ _ c' c hc'.1 hT hc'.2
    have hlookup := hc'.1
    rw [hsame, hT] at hlookup
    exact (Option.some.inj hlookup).symm
  · exact hwf.order_audited sequence
  · rintro ⟨r, hr⟩
    exact h.listed sequence r hr
  · rintro earlier later c sequence r rfl hr hnone
    exact history_retired hnew earlier later c hr hnone
  · obtain ⟨n, hn⟩ := admitCommand_auditFull hfull
    exact (h.submissions n).full hn
  · exact admitCommand_err (Prod.ext rfl herr)

end runs

/-- Room for one command, in the window and in the audit. -/
def narrow : CommandLimits := ⟨1, 0, 1, 2, 64, 8⟩

/-- A second command finds the audit full of the first, which waits for its tick. -/
theorem inbox_bounded_narrow :
    let owner : OwnerStream := ⟨1, 1, 1, ⟨7, 1⟩, 1⟩
    let first : Command Unit Unit := ⟨owner, 1, 1, (), .empty⟩
    let second : Command Unit Unit := ⟨owner, 2, 1, (), .empty⟩
    ∃ inbox : CommandInbox Unit Unit (Command Unit Unit), new owner 0 narrow = .ok inbox ∧
      ((history plainFingerprint inbox [.admitCommand 1 first openRules]).1.admitCommand
        plainFingerprint 1 second
        openRules).2 = .err .auditFull ∧
      ∀ (sequence : ℕ) (r : AuditRecord (Command Unit Unit)),
        (history plainFingerprint inbox [.admitCommand 1 first openRules]).1.audit[sequence]? =
          some r →
        r.pending = true := by
  intro owner first second
  refine ⟨_, rfl, by decide +kernel, ?_⟩
  obtain ⟨-, -, -, -, -, -, -, hfull, -⟩ :=
    @inbox_bounded Unit Unit _ narrow _ _ plainFingerprint owner 0 rfl
    [.admitCommand 1 first openRules]
  exact hfull 1 second openRules (by decide +kernel)

end CommandInbox
end Net
