import Discordium.Lib.Totals
import Discordium.Net.Events.Stream

/-!
# Net — Events — Idempotence

A correction that is delivered twice does its work once.  After a reconciliation every corrected
event has an entry that the same event would leave as it is (`Settled`), no entry is due and none is
absent; a second reconciliation with the same arguments finds nothing to do.

**`reconcile_again`**: of any journal that calls have made, a reconciliation that succeeded succeeds
again, emits nothing and changes nothing, whenever a payload is equal to itself.  The journal asks
no more of payloads than a `==`, and one that is not reflexive, as that of floats is not, is
announced again each time: **`reconcile_again_nan`**.
-/

namespace Net.Events
open Lib Relation
open Std (ExtTreeMap ExtTreeSet)

variable {P : Type}

/-! ### Entries written in place -/

namespace EventJournal

/-- What a replay reads of the journal besides its entries is the same in both. -/
structure Framed (a b : EventJournal P) : Prop where
  scope : b.scope = a.scope
  limits : b.limits = a.limits
  now : b.now = a.now
  retired : b.retired = a.retired
  rejectedActions : b.rejectedActions = a.rejectedActions

theorem Framed.refl (a : EventJournal P) : Framed a a := ⟨rfl, rfl, rfl, rfl, rfl⟩

variable {a : EventJournal P}

theorem Framed.trans {b c : EventJournal P} (h : Framed a b) (h' : Framed b c) : Framed a c :=
  ⟨h'.scope.trans h.scope, h'.limits.trans h.limits, h'.now.trans h.now, h'.retired.trans h.retired,
    h'.rejectedActions.trans h.rejectedActions⟩

theorem framed_setEntry (a : EventJournal P) (entry : Entry P) : Framed a (a.setEntry entry) :=
  ⟨rfl, rfl, rfl, rfl, rfl⟩

theorem setEntry_self {entry : Entry P}
    (h : a.entries[entry.identity.key]? = some entry) : a.setEntry entry = a := by
  obtain ⟨scope, limits, now, retired, entries, keyed, bindings, rejectedActions⟩ := a
  simp only [setEntry, insert_of_some h]

theorem setEntry_setEntry (a : EventJournal P) {old entry : Entry P}
    (h : old.identity.key = entry.identity.key) :
    (a.setEntry old).setEntry entry = a.setEntry entry := by
  have hinsert : (a.entries.insert old.identity.key old).insert entry.identity.key entry =
      a.entries.insert entry.identity.key entry := by
    refine ExtTreeMap.ext_getElem? fun key => ?_
    simp only [lookup_insert, h]
    split_ifs <;> rfl
  simp only [setEntry, hinsert]

end EventJournal

/-! ### Settled events -/

/-- The entry of an event that a replay has dealt with: rejected with its action, over for good, or
live as the replay has it. -/
structure Entry.Replayed (fenced : Bool) (event : EventRecord P) (entry : Entry P) : Prop where
  identity : entry.identity = event.identity
  lifetime : entry.lifetime = some ⟨event.expiresAt, event.delivery⟩
  state :
    fenced = true ∧ entry.phase = .rejected ∧ entry.decision = .rejected ∧ entry.payload = none ∨
    fenced = false ∧ (entry.phase = .expired ∨ entry.phase = .rejected ∨
      entry.phase = .replayAbsent ∧ entry.decision = .accepted) ∨
    fenced = false ∧ entry.phase = .live ∧ entry.payload = some event.payload ∧
      entry.delivered = true

/-- The event passes every check of a replay, and the replay has dealt with it. -/
structure Settled [Payload P] (range : ReplayRange) (validate : P → Bool) (journal : EventJournal P)
    (event : EventRecord P) : Prop where
  action : journal.validAction event.identity.key.action = .ok ()
  shaped : ¬(event.identity.key.kind = 0 ∨ event.identity.schema = 0 ∨
    journal.now < event.identity.originTick)
  dated : ¬(event.identity.originTick < range.first ∨ range.last < event.identity.originTick ∨
    event.expiresAt ≤ event.identity.originTick ∨
    journal.limits.lifetimeTicks < event.expiresAt - event.identity.originTick)
  sized : ¬(journal.limits.payloadBytes < Payload.retainedBytes event.payload ∨
    !validate event.payload)
  entry : ∃ entry : Entry P, journal.entries[event.identity.key]? = some entry ∧
    entry.Replayed (journal.rejectedActions.contains event.identity.key.action) event

namespace Settled
variable [Payload P] {range : ReplayRange} {validate : P → Bool} {event : EventRecord P}

theorem framed {a b : EventJournal P} (h : Settled range validate a event) (hf : a.Framed b)
    (he : b.entries[event.identity.key]? = a.entries[event.identity.key]?) :
    Settled range validate b event where
  action := by
    have := h.action
    unfold EventJournal.validAction at this ⊢
    rwa [hf.scope, hf.retired]
  shaped := by
    rw [hf.now]
    exact h.shaped
  dated := by
    rw [hf.limits]
    exact h.dated
  sized := by
    rw [hf.limits]
    exact h.sized
  entry := by
    rw [he, hf.rejectedActions]
    exact h.entry

end Settled

namespace Staged
variable [Payload P] [Layout P] {staged staged' : Staged P} {entry : Entry P}
  {event : EventRecord P}
  {now : ℕ}

/-- A replay finds nothing to do for an entry it has dealt with. -/
theorem replay_replayed [BEq P] [ReflBEq P]
    (he : staged.journal.entries[entry.identity.key]? = some entry)
    (h : entry.Replayed (staged.journal.rejectedActions.contains event.identity.key.action) event)
    (hfits : staged.journal.checkResident = .ok ()) :
    staged.replay now event entry = .ok staged := by
  have hself : ∀ same : Entry P, same = entry → staged.setEntry same = staged := by
    rintro same rfl
    rw [setEntry, EventJournal.setEntry_self he]
  unfold replay EventRecord.key
  obtain ⟨hf, hp, hd, hpay⟩ | ⟨hf, hends⟩ | ⟨hf, hp, hpay, hdel⟩ := h.state
  · have hsame : { entry with decision := .rejected, phase := .rejected, payload := none } =
        entry := by
      rw [← hp, ← hd, ← hpay]
    simp only [hf, if_true, cancel, Entry.held, hp]
    simp [Except.map, hself _ hsame]
  · simp only [hf, Bool.false_eq_true, if_false, if_pos hends]
  · have hsame : { entry with payload := some event.payload, phase := .live, delivered := true } =
        entry := by
      rw [← hp, ← hpay, ← hdel]
    simp [hf, hp, present, hself _ hsame, hfits, Except.bind, hpay, bne]

variable {before : List EventKey} {identity : EventIdentity}
  {events corrected : List (EventRecord P)}

theorem replayEvent_settled [BEq P] [ReflBEq P] {range : ReplayRange} {validate : P → Bool}
    (h : Settled range validate staged.journal event) (hnew : event.key ∉ before)
    (hfits : staged.journal.checkResident = .ok ()) :
    staged.replayEvent now range validate before event = .ok staged := by
  obtain ⟨entry, he, hr⟩ := h.entry
  have hvalid : staged.journal.validIdentity event.identity = .ok () := by
    unfold EventJournal.validIdentity
    rw [h.action, Except.bind, if_neg h.shaped, he, if_neg (by simp [hr.identity])]
  have hentry : staged.entry event.identity = .ok (staged, entry) := by
    unfold Staged.entry
    simp only [hvalid, Except.bind, he]
  have hsame : { entry with lifetime := some ⟨event.expiresAt, event.delivery⟩ } = entry := by
    rw [← hr.lifetime]
  rw [← hr.identity] at he
  unfold replayEvent
  rw [hvalid, Except.bind, if_neg hnew, if_neg h.dated, if_neg h.sized, hentry, Except.bind]
  dsimp only
  rw [if_neg (by simp [hr.lifetime]), hsame, setEntry, EventJournal.setEntry_self he]
  exact replay_replayed he hr hfits

/-! ### What a replay leaves -/

/-- The entry is not due, and it has a lifetime when it is live. -/
def Calm (now : ℕ) (journal : EventJournal P) : Prop :=
  ∀ (key : EventKey) (entry : Entry P), journal.entries[key]? = some entry →
    due now entry = false ∧ (entry.phase = .live → entry.lifetime.isSome)

/-- What a replay makes of the entry of its event. -/
theorem replay_leaves [BEq P] (hi : entry.identity = event.identity)
    (hl : entry.lifetime = some ⟨event.expiresAt, event.delivery⟩)
    (he : staged.journal.entries[entry.identity.key]? = some entry)
    (hdue : entry.phase = .live → due now entry = false)
    (h : staged.replay now event entry = .ok staged') :
    ∃ entry' : Entry P, staged'.journal = staged.journal.setEntry entry' ∧
      entry'.Replayed (staged.journal.rejectedActions.contains event.identity.key.action) event ∧
      due now entry' = false := by
  unfold replay at h
  rw [EventRecord.key] at h
  split_ifs at h with hf hends hold
  · obtain ⟨hj, -⟩ := cancel_ok h
    exact ⟨_, hj, ⟨hi, hl, .inl ⟨hf, rfl, rfl, rfl⟩⟩, by simp [due, Entry.close]⟩
  · cases h
    refine ⟨entry, (EventJournal.setEntry_self he).symm,
      ⟨hi, hl, .inr (.inl ⟨Bool.eq_false_iff.mpr hf, hends⟩)⟩, ?_⟩
    obtain hp | hp | ⟨hp, hd⟩ := hends
    · simp [due, hp]
    · simp [due, hp]
    · simp [due, hd]
  · obtain ⟨hj, -⟩ := cancel_ok h
    exact ⟨_, hj, ⟨hi, hl, .inr (.inl ⟨Bool.eq_false_iff.mpr hf, .inl rfl⟩)⟩,
      by simp [due, Entry.close]⟩
  · obtain ⟨⟨⟩, -, h⟩ := bind_eq_ok.mp h
    have hj : staged'.journal = staged.journal.setEntry (entry.shown event.payload) := by
      split_ifs at h
      · exact (emit_ok h).1
      · exact (emit_ok h).1
      · cases h
        rfl
    refine ⟨_, hj, ⟨hi, hl, .inr (.inr ⟨Bool.eq_false_iff.mpr hf, rfl, rfl, rfl⟩)⟩, ?_⟩
    by_cases hp : entry.phase = .live
    · have := hdue hp
      simp only [due, hp, hl, Entry.shown] at this ⊢
      exact this
    · simp only [due, hl, Entry.shown, Option.any_some, decide_eq_false_iff_not, decide_eq_true_eq]
      exact fun hc => hold ⟨hc.2.2.1, hc.2.2.2, hp⟩

omit [Payload P] [Layout P] in
/-- The entry of an identity was there before or says nothing yet, and what is written over it might
as well be written over the journal before. -/
theorem entry_written (h : staged.entry identity = .ok (staged', entry)) :
    staged'.journal.rejectedActions = staged.journal.rejectedActions ∧
    (staged.journal.entries[identity.key]? = some entry ∨ entry = .unseen identity) ∧
    ∀ entry' : Entry P, entry'.identity = identity →
      staged'.journal.setEntry entry' = staged.journal.setEntry entry' := by
  obtain ⟨-, he, rfl | ⟨-, -, rfl⟩⟩ := entry_ok h
  · exact ⟨rfl, .inl he, fun _ _ => rfl⟩
  · rw [setEntry, EventJournal.lookup_setEntry, Entry.unseen, if_pos rfl, Option.some.injEq] at he
    exact ⟨rfl, .inr he.symm, fun entry' hid => EventJournal.setEntry_setEntry _ (by rw [hid]; rfl)⟩

omit [Payload P] [Layout P] in
/-- A live entry with the lifetime of its event was there before with that lifetime, so it is not
due. -/
theorem due_known {journal : EventJournal P} {life : Lifetime} (hcalm : Calm now journal)
    (he : journal.entries[identity.key]? = some entry ∨ entry = .unseen identity)
    (hlife : ¬entry.lifetime.any (· ≠ life)) (hp : entry.phase = .live) :
    due now { entry with lifetime := some life } = false := by
  obtain he | rfl := he
  · obtain ⟨hdue, hready⟩ := hcalm _ _ he
    obtain ⟨old, hold⟩ := Option.isSome_iff_exists.mp (hready hp)
    have hsame : old = life := by simpa [hold] using hlife
    rwa [← hsame, ← hold]
  · cases hp

/-- A round leaves its event settled and touches no other entry. -/
theorem replayEvent_leaves [BEq P] {range : ReplayRange} {validate : P → Bool}
    (hcalm : Calm now staged.journal)
    (h : staged.replayEvent now range validate before event = .ok staged') :
    event.key ∉ before ∧ staged.journal.Framed staged'.journal ∧ Calm now staged'.journal ∧
      Settled range validate staged'.journal event ∧
      ∀ key : EventKey, key ≠ event.key → staged'.journal.entries[key]? =
        staged.journal.entries[key]? := by
  obtain ⟨⟨⟩, hvalid, h⟩ := bind_eq_ok.mp h
  split_ifs at h with hnew hdated hsized
  obtain ⟨⟨⟩, haction, hvalid⟩ := bind_eq_ok.mp hvalid
  split_ifs at hvalid with hshaped
  obtain ⟨⟨staged₁, entry⟩, hentry, h⟩ := bind_eq_ok.mp h
  dsimp only at h
  split_ifs at h with hlife
  obtain ⟨hk, -⟩ := entry_ok hentry
  obtain ⟨hfenced, he, hwritten⟩ := entry_written hentry
  have hknown := due_known hcalm he hlife
  generalize hset : { entry with lifetime := some ⟨event.expiresAt, event.delivery⟩ } = known
    at h hknown
  have hid : known.identity = event.identity := by rw [← hset, ← hk]
  obtain ⟨entry', hj, hr, hdue⟩ := replay_leaves hid (by rw [← hset])
    (by rw [setEntry, EventJournal.lookup_setEntry, if_pos rfl])
    (fun hp => hknown (by rw [← hset] at hp; exact hp)) h
  have hkey : entry'.identity.key = event.identity.key := by rw [hr.identity]
  have hjournal : staged'.journal = staged.journal.setEntry entry' := by
    rw [hj, setEntry, EventJournal.setEntry_setEntry _ (by rw [hkey, hid]), hwritten _ hr.identity]
  have hlookup := fun key => staged.journal.lookup_setEntry entry' key
  rw [← hjournal] at hlookup
  have hframed : staged.journal.Framed staged'.journal := by
    rw [hjournal]
    exact EventJournal.framed_setEntry _ _
  refine ⟨hnew, hframed, fun key found hfound => ?_, ⟨?_, ?_, ?_, ?_, entry', ?_, ?_⟩,
    fun key hne => ?_⟩
  · rw [hlookup] at hfound
    split_ifs at hfound
    · cases hfound
      exact ⟨hdue, fun _ => by rw [hr.lifetime]; rfl⟩
    · exact hcalm key found hfound
  · rw [← haction]
    unfold EventJournal.validAction
    rw [hframed.scope, hframed.retired]
  · rwa [hframed.now]
  · rwa [hframed.limits]
  · rwa [hframed.limits]
  · rw [hlookup, if_pos hkey]
  · rw [hframed.rejectedActions, ← hfenced]
    exact hr
  · rw [hlookup, hkey, if_neg fun h => hne h.symm]

/-- After the loop over the corrected events all of them are settled. -/
theorem replayEvents_leaves [BEq P] {range : ReplayRange} {validate : P → Bool}
    (hcalm : Calm now staged.journal) (hbefore : before.Nodup)
    (h : staged.replayEvents now range validate before events = .ok staged') :
    (before ++ events.map EventRecord.key).Nodup ∧ staged.journal.Framed staged'.journal ∧
      Calm now staged'.journal ∧ (∀ event ∈ events, Settled range validate staged'.journal event) ∧
      ∀ key : EventKey, key ∉ events.map EventRecord.key →
        staged'.journal.entries[key]? = staged.journal.entries[key]? := by
  induction events generalizing staged before with
  | nil =>
    cases h
    exact ⟨by simpa using hbefore, .refl _, hcalm, by simp, fun _ _ => rfl⟩
  | cons event events ih =>
    obtain ⟨staged₁, h₁, h₂⟩ := bind_eq_ok.mp h
    obtain ⟨hnew, hframed₁, hcalm₁, hsettled, hother₁⟩ := replayEvent_leaves hcalm h₁
    have hbefore₁ : (before ++ [event.key]).Nodup :=
      hbefore.append (List.nodup_singleton _) (by simpa using hnew)
    obtain ⟨hnodup, hframed, hcalm', hall, hother⟩ := ih hcalm₁ hbefore₁ h₂
    rw [List.append_assoc, List.singleton_append, ← List.map_cons] at hnodup
    have hlater : event.key ∉ events.map EventRecord.key :=
      (List.nodup_cons.mp hnodup.of_append_right).1
    refine ⟨hnodup, hframed₁.trans hframed, hcalm', ?_, fun key hkey => ?_⟩
    · rintro other (_ | ⟨_, hmem⟩)
      · exact hsettled.framed hframed (hother _ hlater)
      · exact hall other hmem
    · rw [List.map_cons, List.mem_cons, not_or] at hkey
      rw [hother key hkey.2, hother₁ key hkey.1]

/-- The loop over the corrected events finds nothing to do when all of them are settled. -/
theorem replayEvents_settled [BEq P] [ReflBEq P] {range : ReplayRange} {validate : P → Bool}
    (h : ∀ event ∈ events, Settled range validate staged.journal event)
    (hnodup : (before ++ events.map EventRecord.key).Nodup)
    (hfits : staged.journal.checkResident = .ok ()) :
    staged.replayEvents now range validate before events = .ok staged := by
  induction events generalizing before with
  | nil => rfl
  | cons event events ih =>
    have hnew : event.key ∉ before := fun hmem =>
      (List.nodup_append.mp hnodup).2.2 _ hmem _ (by simp) rfl
    rw [replayEvents, replayEvent_settled (h event (by simp)) hnew hfits, Except.bind]
    exact ih (fun other hother => h other (List.mem_cons_of_mem _ hother)) (by simpa using hnodup)

/-! ### Sweeps -/

/-- The loop that closes the entries `ends` holds of. -/
def sweep (ends : Entry P → Bool) (phase : Phase) (reason : CancelReason) (staged : Staged P) :
    Except EventError (Staged P) :=
  staged.forEntries fun staged entry =>
    if ends entry then staged.cancel entry phase reason else .ok staged

/-- `b` is `a` after a sweep: some entries that `ends` holds of are closed. -/
structure Swept (ends : Entry P → Bool) (phase : Phase) (a b : EventJournal P) : Prop where
  framed : a.Framed b
  entries : ∀ key : EventKey, b.entries[key]? = a.entries[key]? ∨
    ∃ old : Entry P, a.entries[key]? = some old ∧ ends old ∧
      b.entries[key]? = some (old.close phase)

section sweep
variable {ends : Entry P → Bool} {phase : Phase} {reason : CancelReason}

omit [Payload P] [Layout P] in
theorem Swept.refl (a : EventJournal P) : Swept ends phase a a := ⟨.refl a, fun _ => .inl rfl⟩

omit [Payload P] [Layout P] in
theorem Swept.trans (hends : ∀ entry : Entry P, ends (entry.close phase) = false)
    {a b c : EventJournal P} (h : Swept ends phase a b) (h' : Swept ends phase b c) :
    Swept ends phase a c := by
  refine ⟨h.framed.trans h'.framed, fun key => ?_⟩
  obtain hb | ⟨old, ha, ho, hb⟩ := h.entries key
  · rw [← hb]
    exact h'.entries key
  · obtain hc | ⟨again, hagain, ho', -⟩ := h'.entries key
    · exact .inr ⟨old, ha, ho, hc.trans hb⟩
    · -- a closed entry is not closed again
      cases hb.symm.trans hagain
      rw [hends] at ho'
      cases ho'

/-- After a sweep there is nothing left to close. -/
theorem sweep_leaves (hends : ∀ entry : Entry P, ends (entry.close phase) = false)
    (h : staged.sweep ends phase reason = .ok staged') :
    Swept ends phase staged.journal staged'.journal ∧
      ∀ (key : EventKey) (entry : Entry P), staged'.journal.entries[key]? = some entry →
        ends entry = false := by
  constructor
  · refine forEntries_rel (R := fun a b => Swept ends phase a.journal b.journal) (fun s => .refl _)
      (.trans hends) (fun {s s' entry} he hs => ?_) h
    split_ifs at hs with ho
    · rw [(cancel_ok hs).1]
      refine ⟨EventJournal.framed_setEntry _ _, fun key => ?_⟩
      rw [EventJournal.lookup_setEntry]
      split_ifs with hk
      · exact .inr ⟨entry, hk ▸ he, ho, rfl⟩
      · exact .inl rfl
    · cases hs
      exact .refl _
  · refine forEntries_each (fun {s s' entry} he hs => ?_) h
    split_ifs at hs with ho
    · refine ⟨entry.close phase, hends entry, fun key => ?_⟩
      rw [(cancel_ok hs).1, EventJournal.lookup_setEntry]
      rfl
    · cases hs
      refine ⟨entry, Bool.eq_false_iff.mpr ho, fun key => ?_⟩
      split_ifs with hk
      · rw [← hk, he]
      · rfl

/-- A sweep finds nothing to do when there is nothing to close. -/
theorem sweep_eq_self (h : ∀ (key : EventKey) (entry : Entry P),
    staged.journal.entries[key]? = some entry → ends entry = false) :
    staged.sweep ends phase reason = .ok staged := by
  refine loop_eq_self fun key _ => ?_
  split
  · rename_i entry he
    exact if_neg (Bool.eq_false_iff.mp (h key entry he))
  · rfl

end sweep

/-- After the clock has moved no entry is due. -/
theorem advanceInner_leaves
    (hready : ∀ (key : EventKey) (entry : Entry P), staged.journal.entries[key]? = some entry →
      entry.Ready)
    (h : staged.advanceInner now = .ok staged') :
    staged'.journal.scope = staged.journal.scope ∧ staged'.journal.limits = staged.journal.limits ∧
      staged'.journal.now = now ∧ Calm now staged'.journal := by
  obtain ⟨staged₁, h₁, h₂⟩ := bind_eq_ok.mp h
  unfold setNow at h₁
  split_ifs at h₁
  cases h₁
  obtain ⟨⟨hframed, hentries⟩, hdue⟩ := sweep_leaves (by simp [due, Entry.close]) h₂
  refine ⟨hframed.scope, hframed.limits, hframed.now,
    fun key entry he => ⟨hdue key entry he, fun hp => ?_⟩⟩
  obtain hsame | ⟨old, -, -, hclosed⟩ := hentries key
  · exact (hready key entry (hsame.symm.trans he) hp).2
  · cases hclosed.symm.trans he
    cases hp

/-- What a reconciliation leaves for the next one to find. -/
structure Reconciled (now : ℕ) (range : ReplayRange) (corrected : List (EventRecord P))
    (validate : P → Bool) (journal : EventJournal P) : Prop where
  now_eq : journal.now = now
  ordered : ¬(range.last < range.first ∨ now < range.last)
  recent : ¬journal.limits.historyTicks ≤ now - range.first
  room : ¬journal.limits.records < corrected.length
  distinct : (corrected.map EventRecord.key).Nodup
  settled : ∀ event ∈ corrected, Settled range validate journal event
  calm : ∀ (key : EventKey) (entry : Entry P), journal.entries[key]? = some entry →
    due now entry = false ∧ absent range corrected entry = false

theorem reconcile_leaves [BEq P] {range : ReplayRange}
    {validate : P → Bool}
    (hready : ∀ (key : EventKey) (entry : Entry P), staged.journal.entries[key]? = some entry →
      entry.Ready)
    (h : reconcile now range corrected validate staged = .ok staged') :
    staged'.journal.scope = staged.journal.scope ∧ staged'.journal.limits = staged.journal.limits ∧
      Reconciled now range corrected validate staged'.journal := by
  obtain ⟨staged₁, h₁, h⟩ := bind_eq_ok.mp h
  split_ifs at h with hordered hrecent hroom
  obtain ⟨staged₂, h₂, h₃⟩ := bind_eq_ok.mp h
  obtain ⟨hscope, hlimits, hnow, hcalm₁⟩ := advanceInner_leaves hready h₁
  obtain ⟨hdistinct, hframed₂, hcalm₂, hsettled, -⟩ := replayEvents_leaves hcalm₁ List.nodup_nil h₂
  obtain ⟨⟨hframed₃, hentries⟩, habsent⟩ := sweep_leaves (by simp [absent, Entry.close]) h₃
  have hframed := hframed₂.trans hframed₃
  refine ⟨hframed.scope.trans hscope, hframed.limits.trans hlimits,
    hframed.now.trans hnow, hordered, ?_, ?_, hdistinct, fun event hmem => ?_,
    fun key entry he => ⟨?_, habsent key entry he⟩⟩
  · rwa [hframed.limits]
  · rwa [hframed.limits]
  · refine (hsettled event hmem).framed hframed₃ ((hentries _).resolve_right ?_)
    rintro ⟨old, hold, hends, -⟩
    -- the entry of a corrected event is never absent
    have hkey := staged₂.journal.keyed _ _ hold
    simp only [absent, decide_eq_true_eq, Bool.not_eq_true', List.any_eq_false] at hends
    exact hends.2.2.2 event hmem hkey.symm
  · obtain hsame | ⟨old, hold, hends, hclosed⟩ := hentries key
    · exact (hcalm₂ key entry (hsame.symm.trans he)).1
    · cases hclosed.symm.trans he
      have hdue := (hcalm₂ key old hold).1
      simp only [absent, decide_eq_true_eq] at hends
      simp only [due, hends.1, Entry.close, decide_eq_false_iff_not] at hdue ⊢
      simpa using hdue

theorem reconcile_reconciled [BEq P] [ReflBEq P] {range : ReplayRange} {validate : P → Bool}
    (staged : Staged P) (h : Reconciled now range corrected validate staged.journal)
    (hfits : staged.journal.checkResident = .ok ()) :
    reconcile now range corrected validate staged = .ok staged := by
  have hnow : staged.setNow now = .ok staged := by
    unfold setNow
    rw [if_neg (by rw [h.now_eq]; exact lt_irrefl now), ← h.now_eq]
  have hadvance : staged.advanceInner now = .ok staged := by
    rw [advanceInner, hnow]
    exact sweep_eq_self fun key entry he => (h.calm key entry he).1
  rw [reconcile, hadvance, Except.bind, if_neg h.ordered, if_neg h.recent, if_neg h.room,
    replayEvents_settled h.settled h.distinct hfits, Except.bind]
  exact sweep_eq_self fun key entry he => (h.calm key entry he).2

end Staged

/-! ### The same correction twice -/

section again
variable [Payload P] [Layout P] [BEq P] {memory : Bool} {scope : JournalScope} {limits : Limits}
  {start : EventJournal P}

/-- **Reconciliation is idempotent.**  After any run of calls, a reconciliation that succeeded
succeeds again with the same arguments, emits nothing and leaves the journal as it is, whenever
every payload is equal to itself. -/
theorem reconcile_again [ReflBEq P] (hnew : EventJournal.new memory scope limits = .ok start)
    (calls : List (Call P)) {memory' : Bool} {now : ℕ} {range : ReplayRange}
    {corrected : List (EventRecord P)} {validate : P → Bool} {journal : EventJournal P}
    {changes : List (Change P)}
    (h : (after start calls).1.call (.reconcile memory' now range corrected validate) =
      (journal, .ok changes)) :
    journal.call (.reconcile memory' now range corrected validate) = (journal, .ok []) := by
  have hready := (shows_history (E := fun _ _ => True) (fun _ => trivial) (fun _ _ => trivial)
    (fun _ => trivial) hnew calls).ready
  obtain ⟨hfresh, -, hfits, bytes, h⟩ := EventJournal.transaction_eq_ok.mp h
  obtain ⟨hscope, hlimits, hreconciled⟩ := Staged.reconcile_leaves hready h
  refine EventJournal.transaction_eq_ok.mpr ⟨?_, hfits, hfits, 0, ?_⟩
  · rwa [hscope, hlimits]
  · exact Staged.reconcile_reconciled _ hreconciled hfits

end again

theorem reconcile_again_spawn :
    ∃ start : EventJournal (List UInt8), EventJournal.new true ⟨1, 1⟩ Limits.default = .ok start ∧
      ∃ journal, (after start [spawnCall 1]).1.call (spawnCall 2) = (journal, .ok
          [.update ⟨⟨⟨⟨1, 1, 1, 0⟩, 1, 0⟩, 3, 7⟩, 20, .simulationOwned, [2]⟩,
            .update ⟨⟨⟨⟨1, 1, 1, 0⟩, 2, 0⟩, 3, 7⟩, 20, .oneShot, [2]⟩]) ∧
        journal.call (spawnCall 2) = (journal, .ok []) := by
  have hcall : (((EventJournal.new true ⟨1, 1⟩ Limits.default).toOption.map fun start :
      EventJournal (List UInt8) =>
        ((after start [spawnCall 1]).1.call (spawnCall 2)).2)) = some (.ok
        [.update ⟨⟨⟨⟨1, 1, 1, 0⟩, 1, 0⟩, 3, 7⟩, 20, .simulationOwned, [2]⟩,
          .update ⟨⟨⟨⟨1, 1, 1, 0⟩, 2, 0⟩, 3, 7⟩, 20, .oneShot, [2]⟩]) := by
    decide +kernel
  refine ⟨_, rfl, _, Prod.ext rfl (Option.some.inj hcall), ?_⟩
  exact reconcile_again (show EventJournal.new true ⟨1, 1⟩ Limits.default = .ok _ from rfl)
    [spawnCall 1] (Prod.ext rfl (Option.some.inj hcall))

/-- Readings of which one is not equal to itself, as floats have it. -/
inductive Reading where
  | finite (value : ℕ)
  | nan
  deriving DecidableEq

instance : BEq Reading where
  beq
    | .finite a, .finite b => a == b
    | _, _ => false

instance : Payload Reading := ⟨fun _ => 0⟩

instance : Layout Reading := ⟨168, 72, 32, 184⟩

/-- An event whose payload is not equal to itself. -/
def nanEvent : EventRecord Reading := ⟨⟨⟨⟨1, 1, 1, 0⟩, 1, 0⟩, 3, 7⟩, 20, .simulationOwned, .nan⟩

def nanCall : Call Reading := .reconcile true 4 ⟨3, 4⟩ [nanEvent] fun _ => true

/-- The second reconciliation announces an update that changes nothing. -/
theorem reconcile_again_nan :
    ∃ start : EventJournal Reading, EventJournal.new true ⟨1, 1⟩ Limits.default = .ok start ∧
      ∃ journal, start.call nanCall = (journal, .ok [.create nanEvent false none]) ∧
        (journal.call nanCall).2 = .ok [.update nanEvent] := by
  refine ⟨_, rfl, _, Prod.ext rfl ?_, ?_⟩ <;> decide +kernel

end Net.Events
