import Discordium.Net.Commands.ExactlyOnce

/-!
# Net — Commands — Continuity

What a tick runs with when no command came for it.  The history of a run says which inputs were
committed: the one prepared last at each successful commit (`committedIn`).  The inbox remembers of
them the input of the last command and how many ticks have missed one since; a substitute holds that
input through the grace ticks and is neutral afterwards.

**`substitution_law`** is this for every run in which the preparations use the same rules.  A
preparation alone changes neither memory nor count.
-/

namespace Net
open Lib

namespace CommandInbox
variable {I A F : Type}

/-! ### Committed inputs -/

/-- The input a preparation has handed out and no commit has taken yet, and the committed ones. -/
def settle (s : Option (PreparedInput I A) × List (PreparedInput I A)) :
    Event I A → Option (PreparedInput I A) × List (PreparedInput I A)
  | .prepared (.ok input) => (some input, s.2)
  | .committed (.ok _) => (none, s.2 ++ s.1.toList)
  | _ => s

def settled (h : List (Event I A)) : Option (PreparedInput I A) × List (PreparedInput I A) :=
  h.foldl settle (none, [])

/-- The inputs that were committed, in order. -/
def committedIn (h : List (Event I A)) : List (PreparedInput I A) := (settled h).2

theorem settled_snoc (h : List (Event I A)) (e : Event I A) :
    settled (h ++ [e]) = settle (settled h) e := by
  rw [settled, List.foldl_append]
  rfl

/-- How many ticks in a row have missed their command at the end. -/
def misses (inputs : List (PreparedInput I A)) : ℕ :=
  (inputs.reverse.takeWhile (·.sequence = none)).length

/-- The last input that was a command's. -/
def lastExecuted (inputs : List (PreparedInput I A)) : Option (PreparedInput I A) :=
  inputs.reverse.find? (·.sequence.isSome)

theorem misses_snoc (inputs : List (PreparedInput I A)) (p : PreparedInput I A) :
    misses (inputs ++ [p]) = if p.sequence = none then misses inputs + 1 else 0 := by
  simp only [misses, List.reverse_append, List.reverse_singleton, List.singleton_append,
    List.takeWhile_cons, decide_eq_true_eq]
  split_ifs <;> rfl

theorem lastExecuted_snoc (inputs : List (PreparedInput I A)) (p : PreparedInput I A) :
    lastExecuted (inputs ++ [p]) = if p.sequence = none then lastExecuted inputs else some p := by
  simp only [lastExecuted, List.reverse_append, List.reverse_singleton, List.singleton_append,
    List.find?_cons]
  cases p.sequence <;> rfl

/-- What a missed tick runs with after the inputs committed before it. -/
def substituteAfter (rules : CommandRules I A) (graceTicks : ℕ)
    (inputs : List (PreparedInput I A)) : I :=
  if misses inputs + 1 ≤ graceTicks then
    (lastExecuted inputs).elim rules.neutralInput fun executed => rules.heldInput executed.input
  else rules.neutralInput

/-- What the inbox remembers of the committed inputs. -/
def remembered (inputs : List (PreparedInput I A)) : InputContinuity I :=
  ⟨(lastExecuted inputs).map (·.input), min (misses inputs) (wordMax 32)⟩

variable {graceTicks : ℕ}

/-- The substitute the inbox prepares is the one after the inputs it remembers; the count saturates
far beyond every grace. -/
theorem substitute_remembered (rules : CommandRules I A) (hgrace : graceTicks ≤ 3)
    (inputs : List (PreparedInput I A)) :
    (remembered inputs).substitute graceTicks rules.heldInput rules.neutralInput =
      (substituteAfter rules graceTicks inputs, min (misses inputs + 1) (wordMax 32)) := by
  have hmax : 4 ≤ wordMax 32 := by decide
  have hcount : saturatingAdd 32 (min (misses inputs) (wordMax 32)) 1 =
      min (misses inputs + 1) (wordMax 32) := by
    unfold saturatingAdd
    omega
  have hiff : min (misses inputs + 1) (wordMax 32) ≤ graceTicks ↔
      misses inputs + 1 ≤ graceTicks := by
    omega
  unfold InputContinuity.substitute substituteAfter remembered
  dsimp only
  rw [hcount]
  simp only [hiff]
  cases lastExecuted inputs <;> rfl

/-! ### Preparations and commits -/

variable {inbox inbox' : CommandInbox I A F}

/-- What a preparation hands out: the command that waits for the tick, or a substitute. -/
theorem prepareNext_ok {rules : CommandRules I A} {p : PreparedInput I A}
    (h : inbox.prepareNext rules = (inbox', .ok p)) :
    inbox' = { inbox with prepared := some p } ∧ inbox.prepared = none ∧
    p.tick = inbox.finalized + 1 ∧
      ((∃ c, inbox.pending[p.tick]? = some c ∧ p.sequence = some c.sequence ∧ p.input = c.input ∧
        p.actions = c.actions ∧ p.missingStreak = 0) ∨
      p.sequence = none ∧ p.actions = .empty ∧
        (p.input, p.missingStreak) = inbox.continuity.substitute inbox.limits.heldGraceTicks
          rules.heldInput
          rules.neutralInput) := by
  unfold prepareNext at h
  split at h
  · cases h
  rename_i hp
  split at h
  · cases h
  rename_i tick ht
  have htick := (checkedNext_eq_some.mp ht).1
  split at h
  · cases h
  split at h
  · rename_i c hc
    cases h
    exact ⟨rfl, by simpa using hp, htick, .inl ⟨c, hc, rfl, rfl, rfl, rfl⟩⟩
  · dsimp only at h
    split at h
    · cases h
    · cases h
      exact ⟨rfl, by simpa using hp, htick, .inr ⟨rfl, rfl, rfl⟩⟩

theorem prepareNext_continuity (inbox : CommandInbox I A F) (rules : CommandRules I A) :
    (inbox.prepareNext rules).1.continuity = inbox.continuity := by
  rcases prepareNext_cases inbox rules with ⟨error, h⟩ | ⟨p, h, -⟩ <;> rw [h]

variable {receipt : FinalizedReceipt}

/-- A commit moves the memory with the input it commits. -/
theorem commit_ok {tick : ℕ} (h : inbox.commit tick = (inbox', .ok receipt)) :
    ∃ p, inbox.prepared = some p ∧ inbox'.continuity =
      ⟨if p.sequence = none then inbox.continuity.lastInput else some p.input,
        p.missingStreak⟩ := by
  unfold commit at h
  split at h
  · cases h
  rename_i p hp
  split at h
  · cases h
  dsimp only at h
  refine ⟨p, hp, ?_⟩
  split at h
  · rename_i hs
    cases h
    rw [if_pos hs]
    rfl
  · rename_i sequence hs
    split at h
    · cases h
    · cases h
      rw [if_neg (by rw [hs]; exact nofun)]
      rfl

/-- A commit finalizes the prepared tick and lets go of the command that waited for it. -/
theorem commit_takes {p : PreparedInput I A} (hwf : inbox.WellFormed)
    (hp : inbox.prepared = some p) (h : CommitStep inbox inbox' (.ok receipt)) :
    inbox'.limits = inbox.limits ∧ inbox'.finalized = p.tick ∧ inbox'.prepared = none ∧
      ∀ T : ℕ, inbox'.pending[T]? = if p.tick = T then none else inbox.pending[T]? := by
  cases h with
  | substituted prepared _ hp' hs hf hn hq ha ho hr hl =>
    cases hp.symm.trans hp'
    refine ⟨hl, hf, hn, fun T => ?_⟩
    have hfree : inbox.pending[p.tick]? = none := by
      simpa [hs] using (hwf.prepared_selects p hp).symm
    rw [hq]
    split_ifs with heq
    · rw [← heq, hfree]
    · rfl
  | executed prepared sequence record _ hp' hs hf hn hq hd ha ho hr hl =>
    cases hp.symm.trans hp'
    exact ⟨hl, hf, hn, fun T => by rw [hq, lookup_erase]⟩

theorem reserveAudit_continuity (inbox : CommandInbox I A F) (sequence : ℕ) :
    (inbox.reserveAudit sequence).1.continuity = inbox.continuity := by
  unfold reserveAudit
  split_ifs
  · rfl
  · split
    · rfl
    · rfl
    · split <;> rfl
  · rfl

theorem record_continuity (command : Command I A) (fp : F) (admission : Admission) :
    (inbox.record command fp admission).continuity = inbox.continuity := by
  unfold CommandInbox.record
  dsimp only
  split <;> rfl

/-- What an admission does to what the ticks run with: a command that is accepted waits for its
tick. -/
structure AdmitsInput (inbox : CommandInbox I A F) (accepted : Option (Command I A))
    (inbox' : CommandInbox I A F) : Prop where
  limits : inbox'.limits = inbox.limits
  finalized : inbox'.finalized = inbox.finalized
  prepared : inbox'.prepared = inbox.prepared
  continuity : inbox'.continuity = inbox.continuity
  pending : ∀ T c, inbox'.pending[T]? = some c ↔
    inbox.pending[T]? = some c ∨ accepted = some c ∧ c.target = T

theorem admitCommand_input [DecidableEq F] {fingerprint : Command I A → ℕ → Option (F × ℕ)}
    {command : Command I A} (hwf : inbox.WellFormed) {answer : Answer CommandError Admission}
    (h : AdmitStep fingerprint inbox command inbox' answer) :
    AdmitsInput inbox (Event.accepted? (.admitted command answer)) inbox' := by
  have hquiet : ∀ n, (Event.admitted command answer).accepted? = none →
      AdmitsInput inbox (Event.accepted? (.admitted command answer))
        { inbox with submissions := n } := by
    intro n hnone
    rw [hnone]
    exact ⟨rfl, rfl, rfl, rfl, fun T c => by simp⟩
  cases h with
  | refused n answer hr hp =>
    refine hquiet n ?_
    cases answer with
    | ok admission =>
      have := hr admission rfl
      cases admission <;> simp_all [Event.accepted?, Admission.isAccepted, Admission.isRecorded]
    | err | panic => rfl
  | repeated n previous bytes admission hf ha hp hn =>
    refine hquiet n ?_
    rcases hn with rfl | rfl <;> rfl
  | slackPanic n | reservePanic n => exact hquiet n rfl
  | recorded n fp bytes admission reserved hf hs hcl hr =>
    have hspec := reserveAudit_spec (hwf.submissions n) hr
    have hcontinuity : reserved.continuity = inbox.continuity := by
      have := reserveAudit_continuity { inbox with submissions := n } command.sequence
      rwa [hr] at this
    refine ⟨by rw [record_limits, hspec.limits], by rw [record_finalized, hspec.finalized],
      by rw [record_prepared, hspec.prepared], by rw [record_continuity, hcontinuity],
      fun T c => ?_⟩
    have haccepted : (Event.admitted command (.ok admission)).accepted? =
        if admission.isAccepted then some command else none := rfl
    rw [record_pending, hspec.pending, haccepted]
    by_cases hacc : admission.isAccepted = true
    · have hfree : inbox.pending[command.target]? = none := ((classify_cases hcl).2 hacc).2
      rw [if_pos hacc, if_pos hacc, lookup_insert]
      by_cases heq : command.target = T
      · subst heq
        rw [if_pos rfl, hfree]
        constructor
        · intro h
          exact .inr ⟨h, by rw [Option.some.inj h]⟩
        · rintro (h | ⟨h, -⟩)
          · cases h
          · exact h
      · rw [if_neg heq]
        refine ⟨.inl, ?_⟩
        rintro (h | ⟨h, htarget⟩)
        · exact h
        · exact absurd (by rw [Option.some.inj h, htarget]) heq
    · simp [hacc]

/-! ### The law -/

/-- What a tick runs with, after the inputs committed before it: a substitute, or the input of a
command accepted for the tick. -/
structure Follows (rules : CommandRules I A) (graceTicks : ℕ) (accepted : List (Command I A))
    (before : List (PreparedInput I A)) (p : PreparedInput I A) : Prop where
  substituted : p.sequence = none → p.input = substituteAfter rules graceTicks before ∧
    p.actions = .empty ∧ p.missingStreak = min (misses before + 1) (wordMax 32)
  executed : ∀ sequence, p.sequence = some sequence → p.missingStreak = 0 ∧
    ∃ c ∈ accepted, c.target = p.tick ∧ c.sequence = sequence ∧ p.input = c.input

theorem Follows.mono {rules : CommandRules I A} {accepted more : List (Command I A)}
    {before : List (PreparedInput I A)} {p : PreparedInput I A}
    (h : Follows rules graceTicks accepted before p) :
    Follows rules graceTicks (accepted ++ more) before p where
  substituted := h.substituted
  executed sequence hs := by
    obtain ⟨hstreak, c, hc, hrest⟩ := h.executed sequence hs
    exact ⟨hstreak, c, List.mem_append_left _ hc, hrest⟩

/-- The inbox against the inputs its run has committed. -/
structure Lawful (rules : CommandRules I A) (limits : CommandLimits) (initializedAt : ℕ)
    (s : CommandInbox I A F × List (Event I A)) : Prop where
  wellFormed : s.1.WellFormed
  limits_eq : s.1.limits = limits
  opened : (settled s.2).1 = s.1.prepared
  memory : s.1.continuity = remembered (committedIn s.2)
  ticks : (committedIn s.2).map (·.tick) = List.range' (initializedAt + 1) (committedIn s.2).length
  finalized_eq : s.1.finalized = initializedAt + (committedIn s.2).length
  pending_accepted : ∀ (T : ℕ) (c : Command I A), s.1.pending[T]? = some c → c ∈ acceptedIn s.2
  accepted_settled : ∀ c ∈ acceptedIn s.2, s.1.pending[c.target]? = some c ∨
    ∃ p ∈ committedIn s.2, p.tick = c.target ∧ p.sequence = some c.sequence
  inputs : ∀ (before after : List (PreparedInput I A)) (p : PreparedInput I A),
    committedIn s.2 = before ++ p :: after →
    Follows rules limits.heldGraceTicks (acceptedIn s.2) before p
  selected : ∀ p, s.1.prepared = some p →
    Follows rules limits.heldGraceTicks (acceptedIn s.2) (committedIn s.2) p

section steps
variable {rules : CommandRules I A} {limits : CommandLimits} {initializedAt : ℕ}
  {h : List (Event I A)}

/-- A call that commits nothing and prepares nothing. -/
theorem Lawful.admits {e : Event I A} (hl : Lawful rules limits initializedAt (inbox, h))
    (hsettle : ∀ s, settle s e = s) (hwf : inbox'.WellFormed)
    (ha : AdmitsInput inbox e.accepted? inbox') :
    Lawful rules limits initializedAt (inbox', h ++ [e]) := by
  have hsettled : settled (h ++ [e]) = settled h := by rw [settled_snoc, hsettle]
  have hcommitted : committedIn (h ++ [e]) = committedIn h := congrArg Prod.snd hsettled
  refine ⟨hwf, ha.limits.trans hl.limits_eq, ?_, ?_, ?_, ?_, fun T c hT => ?_,
    fun c hc => ?_, ?_, ?_⟩
  · rw [hsettled, ha.prepared]
    exact hl.opened
  · rw [hcommitted, ha.continuity]
    exact hl.memory
  · rw [hcommitted]
    exact hl.ticks
  · rw [hcommitted, ha.finalized]
    exact hl.finalized_eq
  · rw [acceptedIn_snoc, List.mem_append, Option.mem_toList]
    exact ((ha.pending T c).mp hT).imp (hl.pending_accepted T c) (·.1)
  · rw [acceptedIn_snoc, List.mem_append, Option.mem_toList] at hc
    rw [hcommitted]
    rcases hc with hc | hc
    · exact (hl.accepted_settled c hc).imp_left fun hT => (ha.pending _ c).mpr (.inl hT)
    · exact .inl ((ha.pending _ c).mpr (.inr ⟨hc, rfl⟩))
  · intro before after p hp
    rw [acceptedIn_snoc]
    exact (hl.inputs before after p (hcommitted ▸ hp)).mono
  · intro p hp
    rw [acceptedIn_snoc, hcommitted]
    exact (hl.selected p (ha.prepared ▸ hp)).mono

/-- A preparation hands out the input of the next tick. -/
theorem Lawful.prepares {p : PreparedInput I A} (hgrace : limits.heldGraceTicks ≤ 3)
    (hl : Lawful rules limits initializedAt (inbox, h))
    (hp : inbox.prepareNext rules = (inbox', .ok p)) :
    Lawful rules limits initializedAt (inbox', h ++ [.prepared (.ok p)]) := by
  have hwf := hl.wellFormed.prepareNext rules
  rw [hp] at hwf
  obtain ⟨rfl, -, htick, hinput⟩ := prepareNext_ok hp
  have hcommitted : committedIn (h ++ [.prepared (.ok p)]) = committedIn h := by
    rw [committedIn, settled_snoc]
    rfl
  have haccepted : acceptedIn (h ++ [Event.prepared (.ok p)]) = acceptedIn h := by
    rw [acceptedIn_snoc]
    exact List.append_nil _
  refine ⟨hwf, hl.limits_eq, by rw [settled_snoc]; rfl, ?_, ?_, ?_, ?_, ?_, ?_, ?_⟩ <;>
    dsimp only <;> simp only [hcommitted, haccepted]
  · exact hl.memory
  · exact hl.ticks
  · exact hl.finalized_eq
  · exact hl.pending_accepted
  · exact hl.accepted_settled
  · exact hl.inputs
  · rintro p' ⟨⟩
    obtain ⟨c, hc, hs, hin, -, hstreak⟩ | ⟨hs, hactions, hsubstitute⟩ := hinput
    · refine ⟨fun hnone => ?_, fun sequence hsequence => ⟨hstreak, c, hl.pending_accepted _ c hc,
        ?_, ?_, hin⟩⟩
      · cases hs.symm.trans hnone
      · exact (hl.wellFormed.pending_ahead _ c hc).1
      · exact Option.some.inj (hs.symm.trans hsequence)
    · have hmemory : inbox.continuity = remembered (committedIn h) := hl.memory
      have hlimits : inbox.limits = limits := hl.limits_eq
      rw [hmemory, hlimits, substitute_remembered rules hgrace, Prod.mk.injEq] at hsubstitute
      refine ⟨fun _ => ⟨hsubstitute.1, hactions, hsubstitute.2⟩, fun sequence hsequence => ?_⟩
      cases hs.symm.trans hsequence

/-- A commit takes the input that was handed out. -/
theorem Lawful.commits {tick : ℕ} {receipt : FinalizedReceipt}
    (hl : Lawful rules limits initializedAt (inbox, h))
    (hc : inbox.commit tick = (inbox', .ok receipt)) :
    Lawful rules limits initializedAt (inbox', h ++ [.committed (.ok receipt)]) := by
  obtain ⟨p, hp, hcontinuity⟩ := commit_ok hc
  have hstep := commit_step hc
  have hwf := hl.wellFormed.commit hstep (by exact nofun)
  have hfollows := hl.selected p hp
  have hopened : (settled h).1 = some p := hl.opened.trans hp
  have hsettled : settled (h ++ [.committed (.ok receipt)]) = (none, committedIn h ++ [p]) := by
    rw [settled_snoc, settle, hopened]
    rfl
  have hcommitted : committedIn (h ++ [.committed (.ok receipt)]) = committedIn h ++ [p] :=
    congrArg Prod.snd hsettled
  have haccepted : acceptedIn (h ++ [Event.committed (.ok receipt)]) = acceptedIn h := by
    rw [acceptedIn_snoc]
    exact List.append_nil _
  have htick : p.tick = initializedAt + 1 + (committedIn h).length := by
    have hnext := hl.wellFormed.prepared_next p hp
    have hfinalized := hl.finalized_eq
    dsimp only at hnext hfinalized
    omega
  obtain ⟨hlimits, hfinal, hnone, hpending⟩ := commit_takes hl.wellFormed hp hstep
  refine ⟨hwf, hlimits.trans hl.limits_eq, ?_, ?_, ?_, ?_, ?_, ?_, ?_, ?_⟩ <;> dsimp only <;>
    simp only [hsettled, hcommitted, haccepted]
  · exact hnone.symm
  · have hmemory : inbox.continuity = remembered (committedIn h) := hl.memory
    rw [hcontinuity, remembered, lastExecuted_snoc, misses_snoc]
    split_ifs with hs
    · rw [(hfollows.substituted hs).2.2, hmemory]
      rfl
    · obtain ⟨sequence, hsequence⟩ := Option.ne_none_iff_exists'.mp hs
      rw [(hfollows.executed sequence hsequence).1]
      rfl
  · rw [List.map_append, hl.ticks, List.length_append, List.map_singleton, List.length_singleton,
      List.range'_concat, htick, Nat.one_mul]
  · rw [hfinal, htick, List.length_append, List.length_singleton]
    omega
  · intro T c hT
    rw [hpending] at hT
    split_ifs at hT
    exact hl.pending_accepted T c hT
  · intro c hmem
    rw [hpending]
    rcases hl.accepted_settled c hmem with hT | ⟨q, hq, hrest⟩
    · split_ifs with heq
      · -- the command waited for this very tick, so it is the one the tick runs
        refine .inr ⟨p, List.mem_append_right _ List.mem_cons_self, heq, ?_⟩
        rw [hl.wellFormed.prepared_selects p hp, heq, hT]
        rfl
      · exact .inl hT
    · exact .inr ⟨q, List.mem_append_left _ hq, hrest⟩
  · intro before after q hsplit
    rcases List.eq_nil_or_concat after with rfl | ⟨rest, last, rfl⟩
    · obtain ⟨rfl, heq⟩ := List.append_inj' hsplit rfl
      cases heq
      exact hfollows
    · rw [List.concat_eq_append, ← List.cons_append, ← List.append_assoc] at hsplit
      exact hl.inputs before rest q (List.append_inj' hsplit rfl).1
  · intro p' hp'
    rw [hnone] at hp'
    cases hp'

section committed
variable {s : CommandInbox I A F × List (Event I A)} {p : PreparedInput I A}

theorem Lawful.executed (hl : Lawful rules limits initializedAt s) (hp : p ∈ committedIn s.2)
    {sequence : ℕ} (hsequence : p.sequence = some sequence) :
    ∃ c ∈ acceptedIn s.2, c.target = p.tick ∧ c.sequence = sequence ∧ p.input = c.input := by
  obtain ⟨before, after, hsplit⟩ := List.append_of_mem hp
  exact ((hl.inputs before after p hsplit).executed sequence hsequence).2

/-- The committed inputs without a command are those of the ticks no command was accepted for. -/
theorem Lawful.missed (hl : Lawful rules limits initializedAt s) (hp : p ∈ committedIn s.2) :
    p.sequence = none ↔ ∀ c ∈ acceptedIn s.2, c.target ≠ p.tick := by
  constructor
  · intro hnone c hc htarget
    have hmem : p.tick ∈ (committedIn s.2).map (·.tick) := List.mem_map_of_mem hp
    rcases hl.accepted_settled c hc with hT | ⟨q, hq, htick, hsequence⟩
    · -- a waiting command is for a tick ahead of every committed one
      have hahead := (hl.wellFormed.pending_ahead _ c hT).2
      have hfinalized := hl.finalized_eq
      rw [hl.ticks, List.mem_range'_1] at hmem
      omega
    · have hnodup : ((committedIn s.2).map (·.tick)).Nodup := by
        rw [hl.ticks]
        exact List.nodup_range'
      obtain rfl := List.inj_on_of_nodup_map hnodup hp hq (htarget.symm.trans htick.symm)
      cases hnone.symm.trans hsequence
  · intro hfree
    cases hsequence : p.sequence with
    | none => rfl
    | some sequence =>
      obtain ⟨c, hc, htarget, -⟩ := hl.executed hp hsequence
      exact absurd htarget (hfree c hc)

end committed

end steps

section runs
variable [DecidableEq F] {fingerprint : Command I A → ℕ → Option (F × ℕ)} {rules : CommandRules I A}
  {limits : CommandLimits} {initializedAt : ℕ}

/-- The call prepares with these rules, if it prepares at all. -/
def Ruled (rules : CommandRules I A) (c : Call I A) : Prop :=
  ∀ rules', c = .prepareNext rules' → rules' = rules

theorem Lawful.step (hgrace : limits.heldGraceTicks ≤ 3) (s : CommandInbox I A F × List (Event I A))
    (c : Call I A) (hl : Lawful rules limits initializedAt s) (hc : Ruled rules c) :
    Lawful rules limits initializedAt (logged (step fingerprint) s c) := by
  obtain ⟨inbox, h⟩ := s
  have hquiet : ∀ e : Event I A, e.accepted? = none → (∀ s, settle s e = s) →
      Lawful rules limits initializedAt (inbox, h ++ [e]) := by
    intro e he hsettle
    refine hl.admits hsettle hl.wellFormed ?_
    rw [he]
    exact ⟨rfl, rfl, rfl, rfl, fun T c => by simp⟩
  cases c with
  | admitCommand connection command rules' =>
    have hstep := @admit_step I A F _ fingerprint inbox _ command _ connection rules' rfl
    exact hl.admits (fun _ => rfl) (hl.wellFormed.admitCommand hstep)
      (admitCommand_input hl.wellFormed hstep)
  | prepareNext rules' =>
    obtain rfl := hc rules' rfl
    rcases prepareNext_cases inbox rules' with ⟨error, he⟩ | ⟨p, he, -⟩
    · have := hquiet (.prepared (.err error)) rfl fun _ => rfl
      simpa only [logged, CommandInbox.step, he] using this
    · have := hl.prepares hgrace he
      simpa only [logged, CommandInbox.step, he] using this
  | commit tick =>
    cases he : inbox.commit tick with
    | mk inbox' answer =>
      cases answer with
      | ok receipt =>
        have := hl.commits he
        simpa only [logged, CommandInbox.step, he] using this
      | err error =>
        have hsame : inbox' = inbox := by
          cases commit_step he
          rfl
        have := hquiet (.committed (.err error)) rfl fun _ => rfl
        simpa only [logged, CommandInbox.step, he, hsame] using this
      | panic => exact absurd rfl (hl.wellFormed.commit_ne_panic (commit_step he))

omit [DecidableEq F] in
theorem new_lawful {owner : OwnerStream} {inbox : CommandInbox I A F} (rules : CommandRules I A)
    (h : new owner initializedAt limits = .ok inbox) :
    limits.heldGraceTicks ≤ 3 ∧ Lawful rules limits initializedAt (inbox, []) := by
  have hwf := new_wellFormed h
  unfold new at h
  split_ifs at h with hlimits
  cases h
  push Not at hlimits
  refine ⟨hlimits.2.2.1, hwf, rfl, rfl, rfl, rfl, rfl, ?_, ?_, ?_, ?_⟩
  · simp
  · simp [acceptedIn]
  · intro before after p hsplit
    simp [committedIn, settled] at hsplit
  · intro p hp
    cases hp

/-- **Missing-input substitution.**  In every run whose preparations use the same rules: the
committed inputs without a command are exactly those of ticks for which no command was accepted, and
a command's input is committed for its own tick; a tick without a command, the `j`-th in a row since
the last command, runs with the held input of that command through the grace ticks and with the
neutral input otherwise, and without actions.  The memory of the inbox is that of the inputs it has
committed, so a preparation by itself changes neither the remembered input nor the count. -/
theorem substitution_law {owner : OwnerStream} {inbox : CommandInbox I A F}
    (hnew : new owner initializedAt limits = .ok inbox) (calls : List (Call I A))
    (hrules : ∀ rules', Call.prepareNext rules' ∈ calls → rules' = rules) :
    let s := history fingerprint inbox calls
    (∀ (before after : List (PreparedInput I A)) (p : PreparedInput I A),
      committedIn s.2 = before ++ p :: after → (∀ c ∈ acceptedIn s.2, c.target ≠ p.tick) →
      p.input = (if misses before + 1 ≤ limits.heldGraceTicks then
          (lastExecuted before).elim rules.neutralInput fun executed =>
            rules.heldInput executed.input
        else rules.neutralInput) ∧ p.actions = .empty) ∧
    (∀ p ∈ committedIn s.2, p.sequence = none ↔ ∀ c ∈ acceptedIn s.2, c.target ≠ p.tick) ∧
    (∀ p ∈ committedIn s.2, ∀ sequence, p.sequence = some sequence →
      ∃ c ∈ acceptedIn s.2, c.target = p.tick ∧ c.sequence = sequence ∧ p.input = c.input) ∧
    s.1.continuity = ⟨(lastExecuted (committedIn s.2)).map (·.input),
      min (misses (committedIn s.2)) (wordMax 32)⟩ ∧
    ∀ rules', (s.1.prepareNext rules').1.continuity = s.1.continuity := by
  intro s
  obtain ⟨hgrace, hstart⟩ := new_lawful rules hnew
  have hruled : Meets (logged (step fingerprint)) (fun _ => Ruled rules) (inbox, []) calls :=
    Meets.of_forall (fun c hc rules' heq => hrules rules' (by rw [← heq]; exact hc)) _
  have hl : Lawful rules limits initializedAt s :=
    Meets.invariant (I := Lawful rules limits initializedAt) (Lawful.step hgrace) hstart hruled
  refine ⟨fun before after p hsplit hfree => ?_, fun p hp => hl.missed hp,
    fun p hp sequence hsequence => hl.executed hp hsequence, hl.memory,
    fun rules' => prepareNext_continuity s.1 rules'⟩
  have hnone :=
    (hl.missed (by rw [hsplit]; exact List.mem_append_right _ List.mem_cons_self)).mpr hfree
  obtain ⟨hinput, hactions, -⟩ := (hl.inputs before after p hsplit).substituted hnone
  exact ⟨hinput, hactions⟩

end runs

/-- Rules under which a held input shows that it is held. -/
def heldRules : CommandRules ℕ Unit where
  ownsAt _ _ := true
  validInput _ := true
  validAction _ := true
  heldInput n := n + 100
  neutralInput := 0

/-- A command for the first of five ticks: it is held for three of the others. -/
theorem substitution_law_five_ticks :
    let owner : OwnerStream := ⟨1, 1, 1, ⟨7, 1⟩, 1⟩
    let command : Command ℕ Unit := ⟨owner, 1, 1, 5, .empty⟩
    let calls : List (Call ℕ Unit) :=
      [.admitCommand 1 command heldRules, .prepareNext heldRules, .commit 1, .prepareNext heldRules,
        .commit 2, .prepareNext heldRules, .commit 3, .prepareNext heldRules, .commit 4,
        .prepareNext heldRules, .commit 5]
    ∃ inbox : CommandInbox ℕ Unit Unit, new owner 0 .default = .ok inbox ∧
      (committedIn (history (fun _ _ => some ((), 60)) inbox calls).2).map (·.input) =
        [5, 105, 105, 105, 0] ∧
      (history (fun _ _ => some ((), 60)) inbox calls).1.continuity = ⟨some 5, 4⟩ := by
  intro owner command calls
  have hrules : ∀ rules', Call.prepareNext rules' ∈ calls → rules' = heldRules := by
    simp [calls]
  obtain ⟨-, -, -, hmemory, -⟩ :=
    @substitution_law ℕ Unit Unit _ (fun _ _ => some ((), 60)) heldRules .default 0
    owner _ rfl calls hrules
  refine ⟨_, rfl, by decide +kernel, ?_⟩
  rw [hmemory]
  decide +kernel

end CommandInbox
end Net
