import Discordium.Lib.Machine
import Discordium.Net.Events.Journal

/-!
# Net — Events — Steps

What a call of the journal can do, once.  A trace is a journal with every change it has emitted; a
step is one indivisible effect of the code on it: the clock moves, an entry is opened, gets its
lifetime, leaves the screen, is rejected, presented, accepted or bound, an action is fenced, a
command is retired, the scope is reset.  Every call that succeeds is a chain of steps
(`call_steps`), so whatever each step keeps, every run of calls keeps.
-/

namespace Net.Events
open Lib Relation
open Std (ExtTreeMap ExtTreeSet)

variable {P : Type}

structure Trace (P : Type) where
  journal : EventJournal P
  log : List (Change P)

/-- The scope an action belongs to. -/
def scopeOf (action : ActionKey) : JournalScope := ⟨action.connection, action.stream⟩

/-- The action is of the journal's scope and its command is not retired. -/
def EventJournal.Current (journal : EventJournal P) (action : ActionKey) : Prop :=
  scopeOf action = journal.scope ∧ journal.retired < action.command

/-- Whatever has the index of an entity lets a key take it: it is of an earlier generation, or is
bound to the key itself. -/
def EventJournal.Yields (j : EventJournal P) (entity : EntityId) (key : EventKey) : Prop :=
  ∀ old : Binding, j.bindings[entity.index]? = some old →
    old.entity.generation ≤ entity.generation ∧
      (old.entity.generation = entity.generation → old.key = key)

theorem EventJournal.lookup_setEntry (j : EventJournal P) (entry : Entry P) (key : EventKey) :
    (j.setEntry entry).entries[key]? =
      if entry.identity.key = key then some entry else j.entries[key]? :=
  lookup_insert j.entries entry.identity.key key entry

namespace Entry

/-- What a renderer is told when the entry leaves the screen. -/
def cancellation (entry : Entry P) (reason : CancelReason) : List (Change P) :=
  if entry.held then [.cancel entry.identity.key reason] else []

def close (entry : Entry P) (phase : Phase) : Entry P := { entry with phase, payload := none }

def shown (entry : Entry P) (payload : P) : Entry P :=
  { entry with payload := some payload, phase := .live, delivered := true }

/-- What a renderer is told when a replay repeats the event. -/
def presentation [BEq P] (entry : Entry P) (event : EventRecord P) : List (Change P) :=
  if entry.phase ≠ .live ∧ (!entry.delivered ∨ event.delivery ≠ .oneShot) then
    [.create event (entry.decision = .accepted) entry.binding]
  else if entry.payload != some event.payload ∧ (event.delivery ≠ .oneShot ∨
    entry.phase = .live) then
    [.update event]
  else []

/-- What a renderer is told of a binding. -/
def bindChange (entry : Entry P) (entity : EntityId) : Change P :=
  if entry.phase = .replayAbsent ∨ entry.phase = .expired ∨ entry.phase = .rejected then
    .bindRetired entry.identity.key entity
  else .bind entry.identity.key entity

end Entry

/-- One effect of the code on a journal and what it has emitted. -/
inductive Step [Layout P] [BEq P] : Trace P → Trace P → Prop where
  | tick (j : EventJournal P) (log : List (Change P)) (now : ℕ) :
      Step ⟨j, log⟩ ⟨{ j with now }, log⟩
  | openEntry (j log) (identity : EventIdentity) (hc : j.Current identity.key.action)
      (hnone : j.entries[identity.key]? = none) : Step ⟨j, log⟩ ⟨j.setEntry (.unseen identity), log⟩
  | live (j log) (entry : Entry P) (life : Lifetime) (he : j.entries[entry.identity.key]? =
      some entry)
      (hl : entry.lifetime.all (· = life)) :
      Step ⟨j, log⟩ ⟨j.setEntry { entry with lifetime := some life }, log⟩
  /-- By time, by a replay that does not repeat the event, or by authority. -/
  | close (j log) (entry : Entry P) (phase : Phase) (reason : CancelReason)
      (he : j.entries[entry.identity.key]? = some entry)
      (hp : phase = .expired ∨
        phase = .replayAbsent ∧ entry.phase = .live ∧ entry.decision ≠ .accepted) :
      Step ⟨j, log⟩ ⟨j.setEntry (entry.close phase), log ++ entry.cancellation reason⟩
  | reject (j log) (entry : Entry P) (he : j.entries[entry.identity.key]? = some entry)
      (hd : entry.decision ≠ .accepted ∨ entry.identity.key.action ∈ j.rejectedActions) :
      Step ⟨j, log⟩
        ⟨j.setEntry ({ entry with decision := .rejected }.close .rejected),
          log ++ entry.cancellation .rejected⟩
  | present (j log) (entry : Entry P) (event : EventRecord P) (hk : event.identity = entry.identity)
      (he : j.entries[entry.identity.key]? = some entry)
      (hl : entry.lifetime = some ⟨event.expiresAt, event.delivery⟩)
      (hf : entry.identity.key.action ∉ j.rejectedActions)
      (hp : entry.phase ≠ .expired ∧ entry.phase ≠ .rejected ∧
        ¬(entry.phase = .replayAbsent ∧ entry.decision = .accepted)) :
      Step ⟨j, log⟩ ⟨j.setEntry (entry.shown event.payload), log ++ entry.presentation event⟩
  | accept (j log) (entry : Entry P) (he : j.entries[entry.identity.key]? = some entry)
      (hd : entry.decision = .unresolved) (hf : entry.identity.key.action ∉ j.rejectedActions) :
      Step ⟨j, log⟩
        ⟨j.setEntry { entry with decision := .accepted }, log ++ [.confirm entry.identity.key]⟩
  /-- The entity's index was free, or was bound to an older generation or to this very event. -/
  | bind (j log) (entry : Entry P) (entity : EntityId)
      (he : j.entries[entry.identity.key]? = some entry) (hb : entry.binding = none)
      (ht : j.Yields entity entry.identity.key) :
      Step ⟨j, log⟩
        ⟨(j.setBinding ⟨entity, entry.identity.key⟩).setEntry { entry with binding := some entity },
          log ++ [entry.bindChange entity]⟩
  | fence (j log) (action : ActionKey) (hc : j.Current action)
      (ha : ∀ (key : EventKey) (entry : Entry P), j.entries[key]? = some entry →
        key.action = action → entry.decision ≠ .accepted) :
      Step ⟨j, log⟩ ⟨j.fence action, log⟩
  | retire (j log) (sequence : ℕ) (hs : j.retired ≤ sequence)
      (hl : ∀ (key : EventKey) (entry : Entry P), j.entries[key]? = some entry →
        key.action.command ≤ sequence → entry.phase ≠ .live) :
      Step ⟨j, log⟩ ⟨j.retain sequence, log⟩
  | reset (j log) (memory : Bool) (scope : JournalScope) (replacement : EventJournal P)
      (hs : ¬scope ≤ j.scope) (hn : EventJournal.new memory scope j.limits = .ok replacement) :
      Step ⟨j, log⟩ ⟨replacement, log ++ [.reset j.scope scope]⟩

/-- Chains of steps. -/
abbrev Steps [Layout P] [BEq P] : Trace P → Trace P → Prop := ReflTransGen Step

/-! ### What the staged operations do -/

namespace Staged
variable {log : List (Change P)} {staged staged' : Staged P} {entry : Entry P}

/-- The trace of a call that has not ended. -/
def trace (log : List (Change P)) (staged : Staged P) : Trace P :=
  ⟨staged.journal, log ++ staged.changes⟩

variable {identity : EventIdentity} {found : Entry P}

theorem entry_ok (h : staged.entry identity = .ok (staged', found)) :
    found.identity = identity ∧ staged'.journal.entries[identity.key]? = some found ∧
      (staged' = staged ∨ staged.journal.Current identity.key.action ∧
        staged.journal.entries[identity.key]? = none ∧
          staged' = staged.setEntry (.unseen identity)) := by
  obtain ⟨⟨⟩, hv, h⟩ := bind_eq_ok.mp h
  obtain ⟨⟨⟩, ha, hv⟩ := bind_eq_ok.mp hv
  unfold EventJournal.validAction at ha
  split_ifs at ha hv with hscope hzero hretired _ hconflict
  cases hfound : staged.journal.entries[identity.key]? with
  | some old =>
    simp only [hfound, Except.ok.injEq, Prod.mk.injEq, Option.any_some, decide_eq_true_eq,
      not_not] at h hconflict
    obtain ⟨rfl, rfl⟩ := h
    exact ⟨hconflict, hfound, .inl rfl⟩
  | none =>
    simp only [hfound] at h
    split_ifs at h with hroom
    cases h
    push Not at hscope
    refine ⟨rfl, ?_, .inr ⟨⟨?_, by omega⟩, rfl, rfl⟩⟩
    · rw [setEntry, EventJournal.lookup_setEntry, if_pos]
      rfl
    · rw [scopeOf, hscope.1, hscope.2]

variable [Payload P] [Layout P]

theorem emit_ok {change : Change P} (h : staged.emit change = .ok staged') :
    staged'.journal = staged.journal ∧ staged'.changes = staged.changes ++ [change] := by
  unfold emit at h
  dsimp only at h
  split_ifs at h
  cases h
  exact ⟨rfl, rfl⟩

variable {phase : Phase} {reason : CancelReason}

theorem cancel_ok (h : staged.cancel entry phase reason = .ok staged') :
    staged'.journal = staged.journal.setEntry (entry.close phase) ∧
      staged'.changes = staged.changes ++ entry.cancellation reason := by
  obtain ⟨staged₁, h₁, rfl⟩ := map_eq_ok.mp h
  unfold Entry.cancellation
  split_ifs at h₁ ⊢
  · obtain ⟨hj, hc⟩ := emit_ok h₁
    exact ⟨congrArg (EventJournal.setEntry · _) hj, hc⟩
  · cases h₁
    exact ⟨rfl, (List.append_nil _).symm⟩

variable [BEq P]

/-- A chain of steps, whatever was emitted before the call. -/
def Moves (staged staged' : Staged P) : Prop := ∀ log, Steps (staged.trace log) (staged'.trace log)

omit [Payload P] in
theorem Moves.refl (staged : Staged P) : Moves staged staged := fun _ => .refl

omit [Payload P] in
theorem Moves.trans {a b c : Staged P} (h : Moves a b) (h' : Moves b c) : Moves a c :=
  fun log => (h log).trans (h' log)

variable {j : EventJournal P} {round : Staged P → Entry P → Except EventError (Staged P)} {now : ℕ}
  {event : EventRecord P} {range : ReplayRange} {validate : P → Bool} {before : List EventKey}
  {key : EventKey} {entity : EntityId} {action : ActionKey}

omit [Payload P] in
theorem Moves.step {new : List (Change P)}
    (hj : staged'.journal = j) (hc : staged'.changes = staged.changes ++ new)
    (h : ∀ log, Step ⟨staged.journal, log⟩ ⟨j, log ++ new⟩) : Moves staged staged' := fun log => by
  refine .single ?_
  rw [trace, trace, hj, hc, ← List.append_assoc]
  exact h _

omit [Payload P] in
theorem Moves.silent (hj : staged'.journal = j) (hc : staged'.changes = staged.changes)
    (h : ∀ log, Step ⟨staged.journal, log⟩ ⟨j, log⟩) : Moves staged staged' :=
  .step hj (by rw [hc, List.append_nil]) fun log => by
    rw [List.append_nil]
    exact h log

omit [Payload P] in
theorem entry_moves (h : staged.entry identity = .ok (staged', found)) : Moves staged staged' := by
  obtain ⟨-, -, rfl | ⟨hc, hnone, rfl⟩⟩ := entry_ok h
  · exact .refl _
  · exact .silent rfl rfl fun log => .openEntry _ log identity hc hnone

theorem close_moves
    (he : staged.journal.entries[entry.identity.key]? = some entry)
    (hp : phase = .expired ∨ phase = .replayAbsent ∧ entry.phase = .live ∧
      entry.decision ≠ .accepted)
    (h : staged.cancel entry phase reason = .ok staged') : Moves staged staged' := by
  obtain ⟨hj, hc⟩ := cancel_ok h
  exact .step hj hc fun log => .close _ log entry phase reason he hp

theorem reject_moves (he : staged.journal.entries[entry.identity.key]? = some entry)
    (hd : entry.decision ≠ .accepted ∨ entry.identity.key.action ∈ staged.journal.rejectedActions)
    (h : staged.cancel { entry with decision := .rejected } .rejected .rejected = .ok staged') :
    Moves staged staged' := by
  obtain ⟨hj, hc⟩ := cancel_ok h
  exact .step hj hc fun log => .reject _ log entry he hd

omit [Payload P] [Layout P] [BEq P] in
/-- A loop over the entries moves along the preorders its rounds move along. -/
theorem forEntries_rel
    {R : Staged P → Staged P → Prop} (hrefl : ∀ s, R s s)
    (htrans : ∀ {a b c}, R a b → R b c → R a c) (hround : ∀ {s s' : Staged P} {entry : Entry P},
      s.journal.entries[entry.identity.key]? = some entry → round s entry = .ok s' → R s s')
    (h : staged.forEntries round = .ok staged') : R staged staged' := by
  refine loop_rel hrefl htrans (fun s key s' hs => ?_) h
  split at hs
  · rename_i entry he
    refine hround ?_ hs
    rwa [s.journal.keyed key entry he]
  · cases hs
    exact hrefl _

omit [Payload P] [Layout P] [BEq P] in
/-- What a round makes of its own entry, every entry is after the loop. -/
theorem forEntries_each
    {Q : Entry P → Prop}
    (hset : ∀ {s s' : Staged P} {entry : Entry P}, s.journal.entries[entry.identity.key]? =
      some entry → round s entry = .ok s' → ∃ entry', Q entry' ∧ ∀ key : EventKey,
        s'.journal.entries[key]? =
        if entry.identity.key = key then some entry' else s.journal.entries[key]?)
    (h : staged.forEntries round = .ok staged') (key : EventKey) (entry : Entry P)
    (he : staged'.journal.entries[key]? = some entry) : Q entry := by
  have hround :
      ∀ (s : Staged P) (key : EventKey) (s' : Staged P) (result : Except EventError (Staged P)),
      (∀ entry, s.journal.entries[key]? = some entry → result = round s entry) →
      (s.journal.entries[key]? = none → result = .ok s) → result = .ok s' →
      (s.journal.entries[key]? = none ∧ s' = s) ∨ ∃ entry', Q entry' ∧ ∀ k : EventKey,
        s'.journal.entries[k]? = if key = k then some entry' else s.journal.entries[k]? := by
    intro s key s' result hsome hnone hs
    cases he : s.journal.entries[key]? with
    | some entry =>
      have hown := s.journal.keyed key entry he
      subst hown
      exact .inr (hset he (hsome entry he ▸ hs))
    | none =>
      cases (hnone he).symm.trans hs
      exact .inl ⟨rfl, rfl⟩
  refine loop_each (Q := fun key s => ∀ entry : Entry P, s.journal.entries[key]? =
    some entry → Q entry)
    (fun s key s' hs entry he => ?_) (fun s key k s' hs hQ entry he => ?_) h key ?_ entry he
  · obtain ⟨hnone, rfl⟩ | ⟨entry', hQ, hlook⟩ :=
      hround s key s' _ (fun _ he => by rw [he]) (fun he => by rw [he]) hs
    · simp [hnone] at he
    · rw [hlook, if_pos rfl, Option.some.injEq] at he
      exact he ▸ hQ
  · obtain ⟨-, rfl⟩ | ⟨entry', hQ', hlook⟩ :=
      hround s key s' _ (fun _ he => by rw [he]) (fun he => by rw [he]) hs
    · exact hQ entry he
    · rw [hlook] at he
      split_ifs at he
      · exact Option.some.inj he ▸ hQ'
      · exact hQ entry he
  · by_cases hmem : key ∈ staged.journal.entries.keys
    · exact .inl hmem
    · refine .inr fun found hfound => absurd ?_ hmem
      exact mem_keys_iff.mpr ⟨found, hfound⟩

omit [Payload P] in
theorem forEntries_moves
    (hround : ∀ {s s' : Staged P} {entry : Entry P}, s.journal.entries[entry.identity.key]? =
      some entry → round s entry = .ok s' → Moves s s')
    (h : staged.forEntries round = .ok staged') : Moves staged staged' :=
  forEntries_rel Moves.refl Moves.trans hround h

theorem advanceInner_moves (h : staged.advanceInner now = .ok staged') :
    Moves staged staged' := by
  obtain ⟨staged₁, h₁, h₂⟩ := bind_eq_ok.mp h
  have htick : Moves staged staged₁ := by
    unfold setNow at h₁
    split_ifs at h₁
    cases h₁
    exact .silent rfl rfl fun log => .tick _ log now
  refine htick.trans (forEntries_moves (fun {s s' entry} he hs => ?_) h₂)
  split_ifs at hs
  · exact close_moves he (.inl rfl) hs
  · cases hs
    exact .refl _

/-! ### Replay -/

section
variable (hk : event.identity = entry.identity) (he : staged.journal.entries[entry.identity.key]? =
  some entry) (hl : entry.lifetime = some ⟨event.expiresAt, event.delivery⟩)
include hk he hl

theorem present_moves
    (hf : entry.identity.key.action ∉ staged.journal.rejectedActions)
    (hp : entry.phase ≠ .expired ∧ entry.phase ≠ .rejected ∧
      ¬(entry.phase = .replayAbsent ∧ entry.decision = .accepted))
    (h : staged.present event entry = .ok staged') : Moves staged staged' := by
  obtain ⟨⟨⟩, -, h⟩ := bind_eq_ok.mp h
  have hstep := fun log => Step.present staged.journal log entry event hk he hl hf hp
  unfold Entry.presentation at hstep
  split_ifs at h hstep
  · obtain ⟨hj, hc⟩ := emit_ok h
    exact .step hj hc hstep
  · obtain ⟨hj, hc⟩ := emit_ok h
    exact .step hj hc hstep
  · cases h
    exact .step rfl (List.append_nil _).symm hstep

theorem replay_moves (h : staged.replay now event entry = .ok staged') : Moves staged staged' := by
  unfold replay at h
  rw [EventRecord.key, hk] at h
  simp only [ExtTreeSet.contains_iff_mem] at h
  split_ifs at h with hf hdone
  · exact reject_moves he (.inr hf) h
  · cases h
    exact .refl _
  · exact close_moves he (.inl rfl) h
  · push Not at hdone
    exact present_moves hk he hl hf ⟨hdone.1, hdone.2.1, fun hc => hdone.2.2 hc.1 hc.2⟩ h

end

theorem replayEvent_moves (h : staged.replayEvent now range validate before event = .ok staged') :
    Moves staged staged' := by
  obtain ⟨⟨⟩, -, h⟩ := bind_eq_ok.mp h
  split_ifs at h
  obtain ⟨⟨staged₁, entry⟩, hentry, h⟩ := bind_eq_ok.mp h
  obtain ⟨hk, he, -⟩ := entry_ok hentry
  dsimp only at h
  split_ifs at h with hlife
  have hall : entry.lifetime.all (· = (⟨event.expiresAt, event.delivery⟩ : Lifetime)) := by
    cases hl : entry.lifetime with
    | none => rfl
    | some old => simpa [hl] using hlife
  rw [← hk] at he
  obtain ⟨known, hknown⟩ : ∃ known : Entry P,
    known = { entry with lifetime := some ⟨event.expiresAt, event.delivery⟩ } := ⟨_, rfl⟩
  rw [← hknown] at h
  have hsame : known.identity = entry.identity := by rw [hknown]
  have hmoves : Moves staged₁ (staged₁.setEntry known) :=
    .silent rfl rfl fun log => hknown ▸ .live _ log entry _ he hall
  refine (entry_moves hentry).trans (hmoves.trans (replay_moves ?_ ?_ ?_ h))
  · rw [hsame, hk]
  · rw [setEntry, EventJournal.lookup_setEntry, if_pos rfl]
  · rw [hknown]

theorem replayEvents_moves {events : List (EventRecord P)}
    (h : staged.replayEvents now range validate before events = .ok staged') :
    Moves staged staged' := by
  induction events generalizing staged before with
  | nil =>
    cases h
    exact .refl _
  | cons event events ih =>
    obtain ⟨staged₁, h₁, h₂⟩ := bind_eq_ok.mp h
    exact (replayEvent_moves h₁).trans (ih h₂)

theorem reconcile_moves {corrected : List (EventRecord P)}
    (h : reconcile now range corrected validate staged = .ok staged') :
    Moves staged staged' := by
  obtain ⟨staged₁, h₁, h⟩ := bind_eq_ok.mp h
  split_ifs at h
  obtain ⟨staged₂, h₂, h₃⟩ := bind_eq_ok.mp h
  refine (advanceInner_moves h₁).trans ((replayEvents_moves h₂).trans
    (forEntries_moves (fun {s s' entry} he hs => ?_) h₃))
  split_ifs at hs with habsent
  · simp only [absent, decide_eq_true_eq] at habsent
    exact close_moves he (.inr ⟨rfl, habsent.1, habsent.2.1⟩) hs
  · cases hs
    exact .refl _

/-! ### Decisions -/

theorem accept_moves (he : staged.journal.entries[entry.identity.key]? = some entry)
    (hd : entry.decision ≠ .rejected)
    (hf : entry.identity.key.action ∉ staged.journal.rejectedActions)
    (h : staged.accept entry = .ok staged') :
    Moves staged staged' ∧
      staged'.journal.entries[entry.identity.key]? = some { entry with decision := .accepted } := by
  unfold accept at h
  split_ifs at h with hnew
  · obtain ⟨hj, hc⟩ := emit_ok h
    have hu : entry.decision = .unresolved := by
      cases hdec : entry.decision with
      | unresolved => rfl
      | accepted => exact absurd hdec hnew
      | rejected => exact absurd hdec hd
    refine ⟨.step hj hc fun log => .accept _ log entry he hu hf, ?_⟩
    rw [hj, setEntry, EventJournal.lookup_setEntry, if_pos rfl]
  · cases h
    rw [not_not] at hnew
    refine ⟨.refl _, ?_⟩
    rw [he, ← hnew]

theorem retireBound_ok {old : Binding} (h : staged.retireBound old key = .ok staged') :
    Moves staged staged' ∧ staged'.journal.entries[key]? = staged.journal.entries[key]? ∧
      staged'.journal.bindings = staged.journal.bindings := by
  unfold retireBound at h
  split_ifs at h with hkey
  · split at h
    · rename_i entry he
      have hown := staged.journal.keyed _ _ he
      obtain ⟨hj, -⟩ := cancel_ok h
      refine ⟨close_moves (by rwa [hown]) (.inl rfl) h, ?_, by rw [hj]; rfl⟩
      rw [hj, EventJournal.lookup_setEntry, if_neg]
      rwa [← hown] at hkey
    · cases h
      exact ⟨.refl _, rfl, rfl⟩
  · cases h
    exact ⟨.refl _, rfl, rfl⟩

/-- The index fence of a binding lets the binding step happen. -/
theorem fenceBinding_ok (h : staged.fenceBinding key entity = .ok staged') :
    ∃ staged₁, Moves staged staged₁ ∧
      staged₁.journal.entries[key]? = staged.journal.entries[key]? ∧
      staged₁.journal.Yields entity key ∧ staged' = staged₁.setBinding ⟨entity, key⟩ := by
  unfold fenceBinding at h
  split at h
  · rename_i old hold
    split_ifs at h with hstale hconflict
    obtain ⟨staged₁, h₁, rfl⟩ := map_eq_ok.mp h
    obtain ⟨hmoves, hentry, hbindings⟩ := retireBound_ok h₁
    refine ⟨staged₁, hmoves, hentry, fun found hfound => ?_, rfl⟩
    rw [hbindings, hold, Option.some.injEq] at hfound
    subst hfound
    push Not at hconflict
    exact ⟨by omega, fun heq => hconflict heq.symm⟩
  · rename_i hnone
    split_ifs at h
    cases h
    exact ⟨staged, .refl _, rfl, fun old hold => by simp [hnone] at hold, rfl⟩

theorem bind_moves (he : staged.journal.entries[entry.identity.key]? = some entry)
    (h : staged.bind entry entity = .ok staged') : Moves staged staged' := by
  unfold bind at h
  split at h
  · cases h
  split at h
  · split_ifs at h
    cases h
    exact .refl _
  · rename_i hb
    obtain ⟨staged₂, h₂, h₃⟩ := bind_eq_ok.mp h
    obtain ⟨staged₁, hmoves, hentry, ht, rfl⟩ := fenceBinding_ok h₂
    obtain ⟨hj, hc⟩ := emit_ok h₃
    exact hmoves.trans (.step hj hc fun log => .bind _ log entry entity (hentry.trans he) hb ht)

theorem resolve_moves {outcome : Outcome}
    (h : resolve now identity outcome staged = .ok staged') : Moves staged staged' := by
  obtain ⟨staged₁, h₁, h⟩ := bind_eq_ok.mp h
  obtain ⟨⟨staged₂, entry⟩, h₂, h⟩ := bind_eq_ok.mp h
  obtain ⟨hk, he, -⟩ := entry_ok h₂
  subst hk
  refine (advanceInner_moves h₁).trans ((entry_moves h₂).trans ?_)
  cases outcome with
  | rejected =>
    dsimp only at h
    split_ifs at h with hd
    exact reject_moves he (.inl hd) h
  | accepted binding =>
    dsimp only at h
    split_ifs at h with hd
    simp only [ExtTreeSet.contains_iff_mem, not_or] at hd
    obtain ⟨staged₃, h₃, h⟩ := bind_eq_ok.mp h
    obtain ⟨hmoves, hentry⟩ := accept_moves he hd.1 hd.2 h₃
    cases binding with
    | none =>
      cases h
      exact hmoves
    | some entity => exact hmoves.trans (bind_moves hentry h)

omit [Payload P] in
theorem fenceAction_moves (hcurrent : staged.journal.Current action)
    (ha : ∀ (key : EventKey) (entry : Entry P), staged.journal.entries[key]? = some entry →
      key.action = action → entry.decision ≠ .accepted)
    (h : staged.fenceAction action = .ok staged') :
    Moves staged staged' ∧ staged'.journal.entries = staged.journal.entries ∧
      action ∈ staged'.journal.rejectedActions := by
  unfold fenceAction at h
  split_ifs at h with hmem
  · cases h
    exact ⟨.refl _, rfl, ExtTreeSet.contains_iff_mem.mp hmem⟩
  · cases h
    refine ⟨.silent rfl rfl fun log => .fence _ log action hcurrent ha, rfl, ?_⟩
    exact (mem_set_insert _ _ _).mpr (.inl rfl)

/-- The loop of `rejectAction`: every entry of the fenced action leaves the screen for good. -/
theorem rejectEntries_ok (hf : action ∈ staged.journal.rejectedActions)
    (h : (staged.forEntries fun staged entry =>
      if entry.identity.key.action = action then
        staged.cancel { entry with decision := .rejected } .rejected .rejected
      else .ok staged) = .ok staged') :
    Moves staged staged' ∧ action ∈ staged'.journal.rejectedActions ∧
      ∀ (key : EventKey) (entry : Entry P), staged'.journal.entries[key]? = some entry →
        key.action = action → entry.phase = .rejected := by
  have hmoves : action ∈ staged.journal.rejectedActions →
      Moves staged staged' ∧ action ∈ staged'.journal.rejectedActions := by
    refine forEntries_rel
      (R := fun s s' : Staged P => action ∈ s.journal.rejectedActions →
        Moves s s' ∧ action ∈ s'.journal.rejectedActions)
      (fun s hs => ⟨.refl s, hs⟩) (fun hab hbc ha => ?_) (fun {s s' entry} he hs hfenced => ?_) h
    · obtain ⟨h₁, hb⟩ := hab ha
      exact ⟨h₁.trans (hbc hb).1, (hbc hb).2⟩
    · split_ifs at hs with ha
      · refine ⟨reject_moves he (.inr (ha ▸ hfenced)) hs, ?_⟩
        rw [(cancel_ok hs).1]
        exact hfenced
      · cases hs
        exact ⟨.refl _, hfenced⟩
  refine ⟨(hmoves hf).1, (hmoves hf).2, fun key entry he ha => ?_⟩
  have hown := staged'.journal.keyed key entry he
  refine forEntries_each (Q := fun entry : Entry P => entry.identity.key.action = action →
    entry.phase = .rejected) (fun {s s' entry} he hs => ?_) h key entry he (by rwa [hown])
  split_ifs at hs with ha
  · refine ⟨{ entry with decision := .rejected }.close .rejected, fun _ => rfl, fun k => ?_⟩
    rw [(cancel_ok hs).1, EventJournal.lookup_setEntry]
    rfl
  · cases hs
    refine ⟨entry, fun h => absurd h ha, fun k => ?_⟩
    split_ifs with hk
    · rw [← hk, he]
    · rfl

/-- A rejected action was current and none of its events was accepted; it is fenced, and none of
them is live. -/
theorem rejectAction_ok (h : rejectAction now action staged = .ok staged') :
    ∃ staged₁, Moves staged staged₁ ∧ Moves staged₁ staged' ∧ staged₁.journal.Current action ∧
      (∀ (key : EventKey) (entry : Entry P), staged₁.journal.entries[key]? = some entry →
        key.action = action → entry.decision ≠ .accepted) ∧
      action ∈ staged'.journal.rejectedActions ∧
      ∀ (key : EventKey) (entry : Entry P), staged'.journal.entries[key]? = some entry →
        key.action = action → entry.phase = .rejected := by
  obtain ⟨staged₁, h₁, h⟩ := bind_eq_ok.mp h
  obtain ⟨⟨⟩, hv, h⟩ := bind_eq_ok.mp h
  have hc : staged₁.journal.Current action := by
    unfold EventJournal.validAction at hv
    split_ifs at hv with hscope _ hretired
    push Not at hscope
    exact ⟨by rw [scopeOf, hscope.1, hscope.2], by omega⟩
  split_ifs at h with hany
  have haccepted : ∀ (key : EventKey) (entry : Entry P), staged₁.journal.entries[key]? =
      some entry → key.action = action → entry.decision ≠ .accepted := by
    intro key entry he ha hd
    refine hany (List.any_eq_true.mpr ⟨entry, mem_values.mpr ⟨key, he⟩, ?_⟩)
    rw [staged₁.journal.keyed key entry he]
    exact decide_eq_true ⟨ha, hd⟩
  obtain ⟨staged₂, h₂, h₃⟩ := bind_eq_ok.mp h
  obtain ⟨hmoves₂, -, hfenced⟩ := fenceAction_moves hc haccepted h₂
  obtain ⟨hmoves₃, hfenced', hphase⟩ := rejectEntries_ok hfenced h₃
  exact ⟨staged₁, advanceInner_moves h₁, hmoves₂.trans hmoves₃, hc, haccepted, hfenced', hphase⟩

theorem expire_moves (h : expire now identity staged = .ok staged') :
    Moves staged staged' := by
  obtain ⟨staged₁, h₁, h'⟩ := bind_eq_ok.mp h
  obtain ⟨⟨staged₂, entry⟩, h₂, h₃⟩ := bind_eq_ok.mp h'
  obtain ⟨hk, he, -⟩ := entry_ok h₂
  subst hk
  refine (advanceInner_moves h₁).trans ((entry_moves h₂).trans ?_)
  dsimp only at h₃
  split_ifs at h₃
  · exact close_moves he (.inl rfl) h₃
  · cases h₃
    exact .refl _

end Staged

/-! ### Calls -/

namespace EventJournal
variable [Payload P] [Layout P] {journal journal' : EventJournal P} {memory : Bool}
  {scope : JournalScope} {apply : Staged P → Except EventError (Staged P)}
  {changes : List (Change P)} {error : EventError}

omit [Payload P] in
theorem new_ok {limits : Limits} (h : new memory scope limits = .ok journal) :
    journal.scope = scope ∧ journal.limits = limits ∧ journal.retired = 0 ∧ journal.entries = ∅ ∧
      journal.bindings = ∅ ∧ journal.rejectedActions = ∅ := by
  unfold new at h
  split_ifs at h
  cases h
  exact ⟨rfl, rfl, rfl, rfl, rfl, rfl⟩

/-- A call succeeds when its working copy can be made, all of it succeeds, and the journal is within
its storage before and after. -/
theorem transaction_eq_ok :
    journal.transaction memory apply = (journal', .ok changes) ↔
      (∃ fresh : EventJournal P, new memory journal.scope journal.limits = .ok fresh) ∧
        journal.checkResident = .ok () ∧ journal'.checkResident = .ok () ∧
        ∃ bytes, apply ⟨journal, [], 0⟩ = .ok ⟨journal', changes, bytes⟩ := by
  have hcopy : ∀ fresh : EventJournal P, new memory journal.scope journal.limits = .ok fresh →
      { fresh with
        now := journal.now, retired := journal.retired, entries := journal.entries
        keyed := journal.keyed, bindings := journal.bindings
        rejectedActions := journal.rejectedActions } = journal := by
    intro fresh hfresh
    obtain ⟨hscope, hlimits, -⟩ := new_ok hfresh
    rw [hscope, hlimits]
  constructor
  · intro h
    unfold transaction at h
    dsimp only at h
    split at h
    · rename_i staged hstaged
      cases h
      obtain ⟨fresh, hfresh, h⟩ := bind_eq_ok.mp hstaged
      rw [hcopy fresh hfresh] at h
      obtain ⟨⟨⟩, hbefore, h⟩ := bind_eq_ok.mp h
      obtain ⟨staged₁, h₁, h⟩ := bind_eq_ok.mp h
      obtain ⟨⟨⟩, hafter, rfl⟩ := map_eq_ok.mp h
      exact ⟨⟨fresh, hfresh⟩, hbefore, hafter, _, h₁⟩
    · cases h
  · rintro ⟨⟨fresh, hfresh⟩, hbefore, hafter, bytes, h⟩
    unfold transaction
    simp only [hfresh, Except.bind, hcopy fresh hfresh, hbefore, h, hafter, Except.map]

theorem transaction_ok (h : journal.transaction memory apply = (journal', .ok changes)) :
    ∃ staged, apply ⟨journal, [], 0⟩ = .ok staged ∧ staged.journal = journal' ∧
      staged.changes = changes := by
  obtain ⟨-, -, -, bytes, h⟩ := transaction_eq_ok.mp h
  exact ⟨_, h, rfl, rfl⟩

theorem transaction_error (h : journal.transaction memory apply = (journal', .error error)) :
    journal' = journal := by
  unfold transaction at h
  dsimp only at h
  split at h
  · cases h
  · cases h
    rfl

/-- A call that fails leaves the journal as it was. -/
theorem call_error [BEq P] {c : Call P}
    (h : journal.call c = (journal', .error error)) : journal' = journal := by
  cases c with
  | advance | reconcile | resolve | rejectAction | expire =>
    unfold call at h
    exact transaction_error h
  | retireThrough sequence =>
    simp only [call, retireThrough] at h
    split_ifs at h <;> simp_all [Except.map]
  | reset memory scope =>
    simp only [call, reset] at h
    split_ifs at h
    · simp_all
    · split at h
      · simp_all
      · split at h <;> simp_all

omit [Payload P] in
theorem retireThrough_ok [BEq P] {sequence : ℕ}
    (h : journal.retireThrough sequence = (journal', .ok ())) (log : List (Change P)) :
    Step ⟨journal, log⟩ ⟨journal', log⟩ := by
  unfold retireThrough at h
  split at h
  · simp at h
  split at h
  · simp at h
  rename_i hstale hlive
  cases h
  refine .retire journal log sequence (by omega) fun key entry he hcommand hphase => hlive ?_
  refine List.any_eq_true.mpr ⟨entry, mem_values.mpr ⟨key, he⟩, ?_⟩
  rw [journal.keyed key entry he]
  exact decide_eq_true ⟨hcommand, hphase⟩

theorem reset_ok [BEq P]
    (h : journal.reset memory scope = (journal', .ok changes)) (log : List (Change P)) :
    Step ⟨journal, log⟩ ⟨journal', log ++ changes⟩ := by
  unfold reset at h
  split_ifs at h with hscope
  · simp at h
  split at h
  · simp at h
  · rename_i hnew
    split at h
    · simp at h
    · rename_i staged hemit
      cases h
      obtain ⟨-, hc⟩ := Staged.emit_ok hemit
      rw [hc]
      exact .reset journal log memory scope _ hscope hnew

/-- **Every call is a chain of steps**, and returns what they emitted. -/
theorem call_steps [BEq P] {c : Call P}
    (h : journal.call c = (journal', .ok changes)) (log : List (Change P)) :
    Steps ⟨journal, log⟩ ⟨journal', log ++ changes⟩ := by
  have htransaction : ∀ {memory : Bool} {apply : Staged P → Except EventError (Staged P)},
      journal.transaction memory apply = (journal', .ok changes) →
      (∀ {staged staged'}, apply staged = .ok staged' → Staged.Moves staged staged') →
      Steps ⟨journal, log⟩ ⟨journal', log ++ changes⟩ := by
    intro memory apply h hmoves
    obtain ⟨staged, hstaged, rfl, rfl⟩ := transaction_ok h
    have := hmoves hstaged log
    rwa [Staged.trace, List.append_nil] at this
  unfold call at h
  cases c with
  | advance => exact htransaction h Staged.advanceInner_moves
  | reconcile => exact htransaction h Staged.reconcile_moves
  | resolve => exact htransaction h Staged.resolve_moves
  | rejectAction =>
    refine htransaction h fun hr => ?_
    obtain ⟨_, h₁, h₂, -⟩ := Staged.rejectAction_ok hr
    exact h₁.trans h₂
  | expire => exact htransaction h Staged.expire_moves
  | retireThrough sequence =>
    dsimp only at h
    cases hr : (journal.retireThrough sequence).2 with
    | error error => simp [hr, Except.map] at h
    | ok value =>
      simp only [hr, Except.map, Prod.mk.injEq, Except.ok.injEq] at h
      obtain ⟨rfl, rfl⟩ := h
      rw [List.append_nil]
      exact .single (retireThrough_ok (Prod.ext rfl hr) log)
  | reset memory scope => exact .single (reset_ok h log)

end EventJournal

/-! ### Runs -/

/-- The changes a list of answers returned, in order. -/
def returned (answers : List (Except EventError (List (Change P)))) : List (Change P) :=
  answers.flatMap fun answer => answer.toOption.getD []

variable [Payload P] [Layout P] [BEq P]

section
variable (start : EventJournal P) (calls : List (Call P))

/-- The journal after a run of calls, and what each of them answered. -/
def after :
    EventJournal P × List (Except EventError (List (Change P))) :=
  run (logged EventJournal.call) (start, []) calls

/-- The journal after a run and everything it emitted. -/
def history : Trace P :=
  ⟨(after start calls).1, returned (after start calls).2⟩

theorem history_concat (c : Call P) :
    history start (calls ++ [c]) =
      ⟨((after start calls).1.call c).1,
        (history start calls).log ++ (((after start calls).1.call c).2).toOption.getD []⟩ := by
  simp [history, after, run, logged, returned]

/-- One more call is a chain of steps of the history. -/
theorem history_step (c : Call P) : Steps (history start calls) (history start (calls ++ [c])) := by
  rw [history_concat]
  cases hc : (after start calls).1.call c with
  | mk journal' answer =>
    cases answer with
    | error error =>
      rw [EventJournal.call_error hc]
      simp only [Except.toOption, Option.getD_none, List.append_nil]
      exact .refl
    | ok changes => exact EventJournal.call_steps hc _

end

/-- **A run is a chain of steps**, from any of its points on. -/
theorem history_steps (start : EventJournal P) (calls more : List (Call P)) :
    Steps (history start calls) (history start (calls ++ more)) := by
  induction more using List.reverseRecOn with
  | nil => rw [List.append_nil]
  | append_singleton more c ih =>
    rw [← List.append_assoc]
    exact ih.trans (history_step start (calls ++ more) c)

end Net.Events
