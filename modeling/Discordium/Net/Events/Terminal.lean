import Discordium.Net.Events.Steps

/-!
# Net — Events — Terminal

What the journal says once it says for good.  Along the steps of a run an entry only evolves
(`Evolves`): its lifetime, its decision, its binding and the end of its presentation stay once they
are there.  An entry leaves the journal only when its command is retired or its scope is over
(`Past`), and a past key never comes back.  The uniqueness of cues and bindings over a run is read
off the log: what was created or bound is still witnessed by an entry, unless its key is past.
-/

namespace Net.Events
open Lib Relation
open Std (ExtTreeMap ExtTreeSet)

variable {P : Type}

/-! ### Past keys -/

variable {a b : JournalScope} {journal : EventJournal P} {log new : List (Change P)}
  {entity : EntityId}

theorem JournalScope.le_iff :
    a ≤ b ↔ a.connection < b.connection ∨ a.connection = b.connection ∧ a.stream ≤ b.stream :=
  Iff.rfl

theorem JournalScope.le_trans {c : JournalScope} (h : a ≤ b) (h' : b ≤ c) : a ≤ c := by
  rw [le_iff] at *
  omega

theorem JournalScope.le_of_not_le (h : ¬b ≤ a) : a ≤ b := by
  rw [le_iff] at *
  omega

/-- The key's scope is over, or its command is retired. -/
def EventJournal.Past (journal : EventJournal P) (action : ActionKey) : Prop :=
  (scopeOf action ≤ journal.scope ∧ scopeOf action ≠ journal.scope) ∨
    (scopeOf action = journal.scope ∧ action.command ≤ journal.retired)

theorem EventJournal.Current.not_past {action : ActionKey}
    (h : journal.Current action) : ¬journal.Past action := by
  rintro (⟨-, hne⟩ | ⟨-, hle⟩)
  · exact hne h.1
  · exact absurd h.2 (not_lt_of_ge hle)

/-- A later scope leaves everything of the old one behind. -/
theorem past_of_later {action : ActionKey} {replacement : EventJournal P} {scope : JournalScope}
    (hs : ¬scope ≤ journal.scope) (hr : replacement.scope = scope)
    (ha : scopeOf action ≤ journal.scope) : replacement.Past action := by
  subst hr
  refine .inl ⟨JournalScope.le_trans ha (JournalScope.le_of_not_le hs), ?_⟩
  rintro heq
  exact hs (heq ▸ ha)

section steps
variable [Layout P] [BEq P] {t t' : Trace P} {action : ActionKey} {key : EventKey}

theorem Step.past (hs : Step t t') (h : t.journal.Past action) : t'.journal.Past action := by
  cases hs with
  | retire j log sequence hseq hl =>
    rcases h with h | ⟨h, hle⟩
    · exact .inl h
    · exact .inr ⟨h, hle.trans hseq⟩
  | reset j log memory scope replacement hscope hnew =>
    refine past_of_later hscope (EventJournal.new_ok hnew).1 ?_
    rcases h with ⟨h, -⟩ | ⟨h, -⟩
    · exact h
    · exact h ▸ .inr ⟨rfl, le_rfl⟩
  | _ => exact h

theorem Step.current (hs : Step t t') (h : t.journal.Current action) :
    t'.journal.Current action ∨ t'.journal.Past action := by
  cases hs with
  | retire j log sequence hseq hl =>
    by_cases hc : sequence < action.command
    · exact .inl ⟨h.1, hc⟩
    · exact .inr (.inr ⟨h.1, not_lt.mp hc⟩)
  | reset j log memory scope replacement hscope hnew =>
    exact .inr (past_of_later hscope (EventJournal.new_ok hnew).1 (h.1 ▸ .inr ⟨rfl, le_rfl⟩))
  | _ => exact .inl h

end steps

/-! ### Entries -/

/-- The presentation of the event has ended for good. -/
def Entry.Ended (entry : Entry P) : Prop := entry.phase = .expired ∨ entry.phase = .rejected

/-- What an entry keeps as it changes. -/
structure Evolves (e e' : Entry P) : Prop where
  lifetime : ∀ life, e.lifetime = some life → e'.lifetime = some life
  decision : e.decision ≠ .unresolved → e'.decision = e.decision
  delivered : e.delivered = true → e'.delivered = true
  binding : ∀ entity, e.binding = some entity → e'.binding = some entity
  ended : e.Ended → e'.Ended

theorem Evolves.refl (e : Entry P) : Evolves e e :=
  ⟨fun _ => id, fun _ => rfl, id, fun _ => id, id⟩

theorem Evolves.trans {a b c : Entry P} (h : Evolves a b) (h' : Evolves b c) : Evolves a c where
  lifetime life hl := h'.lifetime life (h.lifetime life hl)
  decision hd := (h'.decision (h.decision hd ▸ hd)).trans (h.decision hd)
  delivered hd := h'.delivered (h.delivered hd)
  binding entity hb := h'.binding entity (h.binding entity hb)
  ended ho := h'.ended (h.ended ho)

/-- What holds of a journal between any two steps. -/
structure EventJournal.Sound (journal : EventJournal P) : Prop where
  current : ∀ (key : EventKey) (entry : Entry P), journal.entries[key]? = some entry →
    journal.Current key.action
  decided : ∀ (key : EventKey) (entry : Entry P), journal.entries[key]? = some entry →
    entry.decision = .rejected → entry.Ended
  fenced : ∀ (key : EventKey) (entry : Entry P), journal.entries[key]? = some entry →
    key.action ∈ journal.rejectedActions → entry.decision ≠ .accepted
  fenceCurrent : ∀ action, action ∈ journal.rejectedActions → journal.Current action

section sound
variable {j : EventJournal P} {entry entry' : Entry P}

theorem EventJournal.Sound.set (h : j.Sound) (hc : j.Current entry.identity.key.action)
    (hd : entry.decision = .rejected → entry.Ended)
    (hf : entry.identity.key.action ∈ j.rejectedActions → entry.decision ≠ .accepted) :
    (j.setEntry entry).Sound where
  current key found hfound := by
    rw [j.lookup_setEntry] at hfound
    split_ifs at hfound with hk
    · exact hk ▸ hc
    · exact h.current key found hfound
  decided key found hfound := by
    rw [j.lookup_setEntry] at hfound
    split_ifs at hfound with hk
    · exact Option.some.inj hfound ▸ hd
    · exact h.decided key found hfound
  fenced key found hfound hmem := by
    rw [j.lookup_setEntry] at hfound
    split_ifs at hfound with hk
    · exact Option.some.inj hfound ▸ hf (hk ▸ hmem)
    · exact h.fenced key found hfound hmem
  fenceCurrent := h.fenceCurrent

variable {found : Entry P}

theorem evolves_set {key : EventKey} (he : j.entries[entry.identity.key]? = some entry)
    (hi : entry'.identity = entry.identity) (hev : Evolves entry entry')
    (hfound : j.entries[key]? = some found) :
    ∃ found' : Entry P, (j.setEntry entry').entries[key]? = some found' ∧ Evolves found found' := by
  rw [j.lookup_setEntry, hi]
  split_ifs with hk
  · subst hk
    rw [he, Option.some.injEq] at hfound
    exact ⟨entry', rfl, hfound ▸ hev⟩
  · exact ⟨found, hfound, .refl found⟩

theorem EventJournal.Sound.not_past {j : EventJournal P} {key : EventKey} (h : j.Sound)
    (hfound : j.entries[key]? = some found) : ¬j.Past key.action :=
  (h.current key found hfound).not_past

theorem Entry.Ended.not_live (h : entry.Ended) : entry.phase ≠ .live := by
  rcases h with h | h <;> simp [h]

/-- An entry that is closed as a step closes it stays closed. -/
theorem Entry.Ended.close {phase : Phase} (h : entry.Ended)
    (hp : phase = .expired ∨ phase = .replayAbsent ∧ entry.phase = .live ∧
      entry.decision ≠ .accepted) :
    (entry.close phase).Ended := by
  rcases hp with rfl | ⟨-, hlive, -⟩
  · exact .inl rfl
  · exact absurd hlive h.not_live

variable [Layout P] [BEq P] {t t' : Trace P}

theorem EventJournal.Sound.step (h : t.journal.Sound) (hs : Step t t') : t'.journal.Sound := by
  cases hs with
  | tick j log now => exact ⟨h.current, h.decided, h.fenced, h.fenceCurrent⟩
  | openEntry j log identity hc hnone =>
      exact h.set hc (by simp [Entry.unseen]) (by simp [Entry.unseen])
  | live j log entry life he hl =>
    exact h.set (h.current _ entry he) (h.decided _ entry he) (h.fenced _ entry he)
  | close j log entry phase reason he hp =>
    exact h.set (h.current _ entry he) (fun hd => (h.decided _ entry he hd).close hp)
      (h.fenced _ entry he)
  | reject j log entry he hd =>
    exact h.set (h.current _ entry he) (fun _ => .inr rfl) fun _ => by simp [Entry.close]
  | present j log entry event hk he hl hf hp =>
    refine h.set (h.current _ entry he) (fun hd => ?_) fun hmem => absurd hmem hf
    rcases h.decided _ entry he hd with hp' | hp'
    · exact absurd hp' hp.1
    · exact absurd hp' hp.2.1
  | accept j log entry he hd hf =>
    exact h.set (h.current _ entry he) (by simp) fun hmem => absurd hmem hf
  | bind j log entry entity he hb ht =>
    have h' : (j.setBinding ⟨entity, entry.identity.key⟩).Sound :=
      ⟨h.current, h.decided, h.fenced, h.fenceCurrent⟩
    exact h'.set (h.current _ entry he) (h.decided _ entry he) (h.fenced _ entry he)
  | fence j log action hc ha =>
    refine ⟨h.current, h.decided, fun key found hfound hmem => ?_, fun a hmem => ?_⟩
    · rcases (mem_set_insert _ _ _).mp hmem with heq | hmem
      · exact ha key found hfound heq
      · exact h.fenced key found hfound hmem
    · rcases (mem_set_insert _ _ _).mp hmem with rfl | hmem
      · exact hc
      · exact h.fenceCurrent a hmem
  | retire j log sequence hseq hl =>
    have hentry : ∀ {key : EventKey} {found : Entry P},
        (j.retain sequence).entries[key]? = some found →
        j.entries[key]? = some found ∧ sequence < key.action.command := by
      intro key found hfound
      rw [EventJournal.retain, ExtTreeMap.getElem?_filter', Option.filter_eq_some_iff] at hfound
      obtain ⟨hfound, hseq⟩ := hfound
      exact ⟨hfound, by simpa [j.keyed key found hfound] using hseq⟩
    refine ⟨fun key found hfound => ?_, fun key found hfound => ?_, fun key found hfound hmem => ?_,
      fun a hmem => ?_⟩
    · exact ⟨(h.current key found (hentry hfound).1).1, (hentry hfound).2⟩
    · exact h.decided key found (hentry hfound).1
    · exact h.fenced key found (hentry hfound).1 ((mem_set_filter _ _ _).mp hmem).1
    · obtain ⟨hmem, hseq⟩ := (mem_set_filter _ _ _).mp hmem
      exact ⟨(h.fenceCurrent a hmem).1, of_decide_eq_true hseq⟩
  | reset j log memory scope replacement hscope hnew =>
    obtain ⟨-, -, -, hentries, -, hfences⟩ := EventJournal.new_ok hnew
    refine ⟨fun key found hfound => ?_, fun key found hfound => ?_, fun key found hfound => ?_,
      fun a hmem => ?_⟩
    · simp [hentries] at hfound
    · simp [hentries] at hfound
    · simp [hentries] at hfound
    · simp [hfences] at hmem

/-- **What a step does to an entry**: it evolves, or its key is past. -/
theorem Step.evolves {key : EventKey} (h : t.journal.Sound) (hs : Step t t')
    (hfound : t.journal.entries[key]? = some found) :
    (∃ found' : Entry P, t'.journal.entries[key]? = some found' ∧ Evolves found found') ∨
      t'.journal.Past key.action := by
  have hsame : ∀ {entry : Entry P}, entry.decision ≠ .accepted →
      entry.decision ≠ .unresolved → Decision.rejected = entry.decision := by
    intro entry ha hu
    cases hd : entry.decision with
    | unresolved => exact absurd hd hu
    | accepted => exact absurd hd ha
    | rejected => rfl
  cases hs with
  | tick j log now => exact .inl ⟨found, hfound, .refl found⟩
  | fence j log action hc ha => exact .inl ⟨found, hfound, .refl found⟩
  | openEntry j log identity hc hnone =>
    refine .inl ⟨found, ?_, .refl found⟩
    rw [j.lookup_setEntry, if_neg]
    · exact hfound
    · rintro rfl
      simp [Entry.unseen, hnone] at hfound
  | live j log entry life he hl =>
    refine .inl (evolves_set he rfl ⟨fun old hold => ?_, fun _ => rfl, id, fun _ => id, id⟩ hfound)
    have : old = life := by simpa [hold] using hl
    rw [this]
  | close j log entry phase reason he hp =>
    exact .inl (evolves_set he rfl ⟨fun _ => id, fun _ => rfl, id, fun _ => id,
      fun ho => ho.close hp⟩ hfound)
  | reject j log entry he hd =>
    refine .inl (evolves_set he rfl ⟨fun _ => id, hsame ?_, id, fun _ => id,
      fun _ => .inr rfl⟩ hfound)
    exact hd.elim id (h.fenced _ entry he)
  | present j log entry event hk he hl hf hp =>
    refine .inl (evolves_set he rfl ⟨fun _ => id, fun _ => rfl, fun _ => rfl, fun _ => id,
      ?_⟩ hfound)
    rintro (ho | ho)
    · exact absurd ho hp.1
    · exact absurd ho hp.2.1
  | accept j log entry he hd hf =>
    exact .inl (evolves_set he rfl ⟨fun _ => id, fun hu => absurd hd hu, id, fun _ => id,
      id⟩ hfound)
  | bind j log entry entity he hb ht =>
    have he' : (j.setBinding ⟨entity, entry.identity.key⟩).entries[entry.identity.key]? =
        some entry := he
    refine .inl (evolves_set he' rfl ⟨fun _ => id, fun _ => rfl, id, fun old hold => ?_, id⟩ hfound)
    simp [hb] at hold
  | retire j log sequence hseq hl =>
    have hc := h.current key found hfound
    by_cases hcommand : sequence < key.action.command
    · refine .inl ⟨found, ?_, .refl found⟩
      rw [EventJournal.retain, ExtTreeMap.getElem?_filter', hfound, Option.filter_eq_some_iff]
      exact ⟨rfl, by simpa [j.keyed key found hfound] using hcommand⟩
    · exact .inr (.inr ⟨hc.1, not_lt.mp hcommand⟩)
  | reset j log memory scope replacement hscope hnew =>
    have hc := (h.current key found hfound).1
    exact .inr (past_of_later hscope (EventJournal.new_ok hnew).1 (hc ▸ .inr ⟨rfl, le_rfl⟩))

theorem EventJournal.Sound.steps (h : t.journal.Sound) (hs : Steps t t') : t'.journal.Sound := by
  induction hs with
  | refl => exact h
  | tail _ hstep ih => exact ih.step hstep

/-- **What a run does to an entry.** -/
theorem Steps.evolves {key : EventKey} (h : t.journal.Sound) (hs : Steps t t')
    (hfound : t.journal.entries[key]? = some found) :
    (∃ found' : Entry P, t'.journal.entries[key]? = some found' ∧ Evolves found found') ∨
      t'.journal.Past key.action := by
  induction hs with
  | refl => exact .inl ⟨found, hfound, .refl found⟩
  | tail hs₁ hstep ih =>
    rcases ih with ⟨found₁, hfound₁, hev⟩ | hpast
    · rcases hstep.evolves (h.steps hs₁) hfound₁ with ⟨found₂, hfound₂, hev'⟩ | hpast
      · exact .inl ⟨found₂, hfound₂, hev.trans hev'⟩
      · exact .inr hpast
    · exact .inr (hstep.past hpast)

end sound

/-! ### What a step emits -/

/-- The change creates the event of the key. -/
def Change.creates (key : EventKey) : Change P → Bool
  | .create event _ _ => event.key = key
  | _ => false

/-- How often the event of a key was created. -/
def creations (key : EventKey) (log : List (Change P)) : ℕ := log.countP (Change.creates key)

/-- The change binds the key to the entity. -/
def Change.Binds (key : EventKey) (entity : EntityId) (change : Change P) : Prop :=
  change = .bind key entity ∨ change = .bindRetired key entity

/-- The key was bound to the entity. -/
def BoundIn (log : List (Change P)) (key : EventKey) (entity : EntityId) : Prop :=
  ∃ change ∈ log, change.Binds key entity

/-- The change neither creates nor binds. -/
def Change.quiet : Change P → Bool
  | .create _ _ _ | .bind _ _ | .bindRetired _ _ => false
  | _ => true

/-- The event of a key may still be presented. -/
def EventJournal.Presentable (journal : EventJournal P) (key : EventKey) : Prop :=
  ∃ entry : Entry P, journal.entries[key]? = some entry ∧ ¬entry.Ended ∧
    key.action ∉ journal.rejectedActions

/-- What one step adds to the log. -/
inductive Emission (t t' : Trace P) : Prop where
  | quiet (new : List (Change P)) (hlog : t'.log = t.log ++ new) (hq : ∀ change ∈ new, change.quiet)
  | create (entry : Entry P) (event : EventRecord P) (committed : Bool) (binding : Option EntityId)
      (he : t.journal.entries[event.key]? = some entry)
      (hl : entry.lifetime = some ⟨event.expiresAt, event.delivery⟩)
      (hc : entry.delivered = true → event.delivery ≠ .oneShot)
      (hp : t.journal.Presentable event.key)
      (hshown : t'.journal.entries[event.key]? = some (entry.shown event.payload))
      (hlog : t'.log = t.log ++ [.create event committed binding])
  | bind (key : EventKey) (entity : EntityId) (entry : Entry P) (change : Change P)
      (he : t.journal.entries[key]? = some entry) (hb : entry.binding = none)
      (ht : t.journal.Yields entity key)
      (he' : t'.journal.entries[key]? = some { entry with binding := some entity })
      (hbindings : t'.journal.bindings = t.journal.bindings.insert entity.index ⟨entity, key⟩)
      (hchange : change.Binds key entity) (hlog : t'.log = t.log ++ [change])

section emission
variable [Layout P] [BEq P] {t t' : Trace P}

omit [Layout P] [BEq P] in
theorem cancellation_quiet (entry : Entry P) (reason : CancelReason) :
    ∀ change ∈ entry.cancellation reason, change.quiet := by
  unfold Entry.cancellation
  split <;> simp [Change.quiet]

theorem Step.emission (hs : Step t t') : Emission t t' := by
  cases hs with
  | tick j log now => exact .quiet [] (List.append_nil log).symm (by simp)
  | openEntry j log identity hc hnone => exact .quiet [] (List.append_nil log).symm (by simp)
  | live j log entry life he hl => exact .quiet [] (List.append_nil log).symm (by simp)
  | close j log entry phase reason he hp => exact .quiet _ rfl (cancellation_quiet entry reason)
  | reject j log entry he hd => exact .quiet _ rfl (cancellation_quiet entry .rejected)
  | present j log entry event hk he hl hf hp =>
    have hkey : event.key = entry.identity.key := congrArg EventIdentity.key hk
    unfold Entry.presentation
    split_ifs with hcreate hupdate
    · refine .create entry event _ _ (hkey ▸ he) hl (fun hd => ?_)
        ⟨entry, hkey ▸ he, ?_, hkey ▸ hf⟩ ?_ rfl
      · simpa [hd] using hcreate.2
      · rintro (ho | ho)
        · exact hp.1 ho
        · exact hp.2.1 ho
      · rw [j.lookup_setEntry, if_pos]
        exact hkey.symm
    · exact .quiet _ rfl (by simp [Change.quiet])
    · exact .quiet _ rfl (by simp)
  | accept j log entry he hd hf => exact .quiet _ rfl (by simp [Change.quiet])
  | bind j log entry entity he hb ht =>
    refine .bind entry.identity.key entity entry _ he hb ht ?_ rfl ?_ rfl
    · rw [EventJournal.lookup_setEntry, if_pos rfl]
    · unfold Entry.bindChange
      split
      · exact .inr rfl
      · exact .inl rfl
  | fence j log action hc ha => exact .quiet [] (List.append_nil log).symm (by simp)
  | retire j log sequence hseq hl => exact .quiet [] (List.append_nil log).symm (by simp)
  | reset j log memory scope replacement hscope hnew => exact .quiet _ rfl (by simp [Change.quiet])

/-- Outside of a binding, a step keeps the binding table, or starts a later scope. -/
theorem Step.table (hs : Step t t') :
    (t'.journal.scope = t.journal.scope ∧ (t'.journal.bindings = t.journal.bindings ∨
      ∃ (key : EventKey) (entity : EntityId),
        t.journal.Yields entity key ∧
        t'.journal.bindings = t.journal.bindings.insert entity.index ⟨entity, key⟩)) ∨
      ¬t'.journal.scope ≤ t.journal.scope := by
  cases hs with
  | bind j log entry entity he hb ht => exact .inl ⟨rfl, .inr ⟨_, entity, ht, rfl⟩⟩
  | reset j log memory scope replacement hscope hnew =>
    exact .inr (by rwa [(EventJournal.new_ok hnew).1])
  | _ => exact .inl ⟨rfl, .inl rfl⟩

/-- **Where an entry comes from**: it is new and unseen, or it was there, and what it binds and
shows after the step it bound and showed before, or the step is a binding or a presentation of
it. -/
theorem Step.origin (hs : Step t t') {key : EventKey} {found' : Entry P}
    (hfound' : t'.journal.entries[key]? = some found') :
    (found'.binding = none ∧ found'.phase ≠ .live) ∨
      ∃ found : Entry P, t.journal.entries[key]? = some found ∧
        (found'.binding = found.binding ∨
          ∃ entity, found'.binding = some entity ∧ BoundIn t'.log key entity) ∧
        (found'.phase = .live → found.phase = .live ∨ t.journal.Presentable key) := by
  have hset : ∀ {j : EventJournal P} {entry entry' : Entry P},
      j.entries[entry.identity.key]? = some entry → (j.setEntry entry').entries[key]? =
        some found' →
      entry'.identity = entry.identity → entry'.binding = entry.binding →
      (entry'.phase = .live → entry.phase = .live ∨ j.Presentable entry.identity.key) →
      ∃ found : Entry P, j.entries[key]? = some found ∧
        (found'.binding = found.binding ∨
          ∃ entity, found'.binding = some entity ∧ BoundIn t'.log key entity) ∧
        (found'.phase = .live → found.phase = .live ∨ j.Presentable key) := by
    intro j entry entry' he hfound hi hb hp
    rw [j.lookup_setEntry, hi] at hfound
    split_ifs at hfound with hk
    · cases hfound
      subst hk
      exact ⟨entry, he, .inl hb, hp⟩
    · exact ⟨found', hfound, .inl rfl, .inl⟩
  cases hs with
  | tick | fence => exact .inr ⟨found', hfound', .inl rfl, .inl⟩
  | openEntry j log identity hc hnone =>
    rw [j.lookup_setEntry] at hfound'
    split_ifs at hfound' with hk
    · cases hfound'
      exact .inl ⟨rfl, by simp [Entry.unseen]⟩
    · exact .inr ⟨found', hfound', .inl rfl, .inl⟩
  | live j log entry life he hl => exact .inr (hset he hfound' rfl rfl .inl)
  | close j log entry phase reason he hp =>
    refine .inr (hset he hfound' rfl rfl fun hlive => ?_)
    rcases hp with rfl | ⟨rfl, -⟩ <;> cases hlive
  | reject j log entry he hd => exact .inr (hset he hfound' rfl rfl fun hlive => by cases hlive)
  | present j log entry event hk he hl hf hp =>
    refine .inr (hset he hfound' rfl rfl fun _ => .inr ⟨entry, he, ?_, hf⟩)
    rintro (ho | ho)
    · exact hp.1 ho
    · exact hp.2.1 ho
  | accept j log entry he hd hf => exact .inr (hset he hfound' rfl rfl .inl)
  | bind j log entry entity he hb ht =>
    rw [EventJournal.lookup_setEntry] at hfound'
    split_ifs at hfound' with hk
    · cases hfound'
      subst hk
      refine .inr ⟨entry, he, .inr ⟨entity, rfl, _, List.mem_append_right _ List.mem_cons_self,
        ?_⟩, .inl⟩
      unfold Entry.bindChange
      split
      · exact .inr rfl
      · exact .inl rfl
    · exact .inr ⟨found', hfound', .inl rfl, .inl⟩
  | retire j log sequence hseq hl =>
    rw [EventJournal.retain, ExtTreeMap.getElem?_filter'] at hfound'
    exact .inr ⟨found', Option.eq_some_of_filter_eq_some hfound', .inl rfl, .inl⟩
  | reset j log memory scope replacement hscope hnew =>
    simp [(EventJournal.new_ok hnew).2.2.2.1] at hfound'

end emission

/-! ### What the log says of the journal -/

/-- An event that was created: its key is past, or its entry has been delivered under that
lifetime. -/
def EventJournal.Delivered (journal : EventJournal P) (event : EventRecord P) : Prop :=
  journal.Past event.key.action ∨ ∃ entry : Entry P, journal.entries[event.key]? = some entry ∧
    entry.delivered = true ∧ entry.lifetime = some ⟨event.expiresAt, event.delivery⟩

/-- A key that was bound: it is past, or its entry holds the entity. -/
def EventJournal.Holds (journal : EventJournal P) (key : EventKey) (entity : EntityId) : Prop :=
  journal.Past key.action ∨ ∃ entry : Entry P, journal.entries[key]? = some entry ∧
    entry.binding = some entity

/-- The index of a bound entity is fenced, in the scope of its key, at that generation or above. -/
def EventJournal.Fences (journal : EventJournal P) (key : EventKey) (entity : EntityId) : Prop :=
  scopeOf key.action = journal.scope → ∃ b : Binding, journal.bindings[entity.index]? = some b ∧
    entity.generation ≤ b.entity.generation ∧ (entity.generation = b.entity.generation →
      b.key = key)

structure Recorded (t : Trace P) : Prop where
  created : ∀ event committed binding, .create event committed binding ∈ t.log →
    t.journal.Delivered event
  cues : ∀ event committed binding, .create event committed binding ∈ t.log →
    event.delivery = .oneShot → creations event.key t.log = 1
  bound : ∀ key entity, BoundIn t.log key entity → t.journal.Holds key entity
  fences : ∀ key entity, BoundIn t.log key entity → t.journal.Fences key entity
  oneEntity : ∀ key entity entity', BoundIn t.log key entity → BoundIn t.log key entity' →
    entity = entity'
  oneKey : ∀ key key' entity, BoundIn t.log key entity → BoundIn t.log key' entity →
    scopeOf key.action = scopeOf key'.action → key = key'
  held : ∀ (key : EventKey) (entry : Entry P) entity, t.journal.entries[key]? = some entry →
    entry.binding = some entity → BoundIn t.log key entity

theorem boundIn_append {key : EventKey} :
    BoundIn (log ++ new) key entity ↔ BoundIn log key entity ∨ BoundIn new key entity := by
  simp [BoundIn, or_and_right, exists_or]

theorem creations_append (key : EventKey) (log new : List (Change P)) :
    creations key (log ++ new) = creations key log + creations key new :=
  List.countP_append

theorem Change.Binds.unique {change : Change P} {key key' : EventKey} {entity' : EntityId}
    (h : change.Binds key entity) (h' : change.Binds key' entity') :
    key = key' ∧ entity = entity' := by
  rcases h with rfl | rfl <;> rcases h' with h' | h' <;> cases h' <;> exact ⟨rfl, rfl⟩

theorem quiet_boundIn (hq : ∀ change ∈ new, change.quiet) (key : EventKey)
    (entity : EntityId) : ¬BoundIn new key entity := by
  rintro ⟨change, hc, rfl | rfl⟩ <;> simpa [Change.quiet] using hq _ hc

theorem quiet_creations (hq : ∀ change ∈ new, change.quiet) (key : EventKey) :
    creations key new = 0 := by
  refine List.countP_eq_zero.mpr fun change hc => ?_
  have := hq change hc
  cases change <;> simp_all [Change.quiet, Change.creates]

theorem creations_eq_zero {key : EventKey}
    (h : ∀ event committed binding, Change.create event committed binding ∈ log → event.key ≠ key) :
    creations key log = 0 := by
  refine List.countP_eq_zero.mpr fun change hc => ?_
  cases change with
  | create event committed binding => simpa [Change.creates] using h event committed binding hc
  | _ => simp [Change.creates]

section recorded
variable [Layout P] [BEq P] {t t' : Trace P} {event : EventRecord P} {entity : EntityId}

theorem Step.delivered (hsound : t.journal.Sound) (hs : Step t t')
    (h : t.journal.Delivered event) : t'.journal.Delivered event := by
  rcases h with h | ⟨entry, he, hd, hl⟩
  · exact .inl (hs.past h)
  · rcases hs.evolves hsound he with ⟨entry', he', hev⟩ | hpast
    · exact .inr ⟨entry', he', hev.delivered hd, hev.lifetime _ hl⟩
    · exact .inl hpast

theorem Step.holds (hsound : t.journal.Sound) (hs : Step t t') {key : EventKey}
    (h : t.journal.Holds key entity) : t'.journal.Holds key entity := by
  rcases h with h | ⟨entry, he, hb⟩
  · exact .inl (hs.past h)
  · rcases hs.evolves hsound he with ⟨entry', he', hev⟩ | hpast
    · exact .inr ⟨entry', he', hev.binding _ hb⟩
    · exact .inl hpast

omit [Layout P] [BEq P] in
theorem EventJournal.Holds.scope_le {j : EventJournal P} {key : EventKey}
    (hsound : j.Sound) (h : j.Holds key entity) : scopeOf key.action ≤ j.scope := by
  rcases h with (⟨h, -⟩ | ⟨h, -⟩) | ⟨entry, he, -⟩
  · exact h
  · exact h ▸ .inr ⟨rfl, le_rfl⟩
  · exact (hsound.current key entry he).1 ▸ .inr ⟨rfl, le_rfl⟩

theorem Step.fences (hsound : t.journal.Sound) (hs : Step t t') {key : EventKey}
    (hh : t.journal.Holds key entity) (h : t.journal.Fences key entity) :
    t'.journal.Fences key entity := by
  intro hscope
  rcases hs.table with ⟨hsame, htable⟩ | hlater
  · obtain ⟨b, hb, hle, heq⟩ := h (hscope.trans hsame)
    rcases htable with hbindings | ⟨key', entity', ht, hbindings⟩
    · exact ⟨b, hbindings ▸ hb, hle, heq⟩
    · rw [hbindings, lookup_insert]
      split_ifs with hindex
      · -- the index is taken over: by a later generation, or by the same key
        obtain ⟨hle', heq'⟩ := ht b (hindex ▸ hb)
        refine ⟨⟨entity', key'⟩, rfl, hle.trans hle', fun hgen => ?_⟩
        have hb' : b.entity.generation = entity'.generation :=
          Nat.le_antisymm hle' (hgen ▸ hle)
        exact (heq' hb').symm.trans (heq (hgen.trans hb'.symm))
      · exact ⟨b, hb, hle, heq⟩
  · exact absurd (hscope ▸ hh.scope_le hsound) hlater

/-- What the log said stays true across a step. -/
structure Carries (t t' : Trace P) : Prop where
  created : ∀ event committed binding, .create event committed binding ∈ t.log →
    t'.journal.Delivered event
  bound : ∀ key entity, BoundIn t.log key entity → t'.journal.Holds key entity
  fences : ∀ key entity, BoundIn t.log key entity → t'.journal.Fences key entity
  held : ∀ (key : EventKey) (entry : Entry P) entity, t'.journal.entries[key]? = some entry →
    entry.binding = some entity → BoundIn t.log key entity ∨ BoundIn t'.log key entity

theorem Recorded.carries (hsound : t.journal.Sound) (h : Recorded t) (hs : Step t t') :
    Carries t t' where
  created event c b hc := hs.delivered hsound (h.created event c b hc)
  bound key entity hb := hs.holds hsound (h.bound key entity hb)
  fences key entity hb := hs.fences hsound (h.bound key entity hb) (h.fences key entity hb)
  held key entry entity he hb := by
    rcases hs.origin he with ⟨hnone, -⟩ | ⟨old, hold, hsame | ⟨e, he', hbound⟩, -⟩
    · simp [hnone] at hb
    · exact .inl (h.held key old entity hold (hsame ▸ hb))
    · rw [hb, Option.some.injEq] at he'
      exact .inr (he' ▸ hbound)

omit [Layout P] [BEq P] in
/-- A step that binds nothing has only what it creates to record. -/
theorem Recorded.unbound (h : Recorded t) (hcarries : Carries t t')
    (hlog : t'.log = t.log ++ new) (hnew : ∀ key entity, ¬BoundIn new key entity)
    (hcreated : ∀ event c b, .create event c b ∈ t'.log → t'.journal.Delivered event)
    (hcues : ∀ event c b, .create event c b ∈ t'.log → event.delivery = .oneShot →
      creations event.key t'.log = 1) : Recorded t' := by
  have hb : ∀ {key entity}, BoundIn t'.log key entity ↔ BoundIn t.log key entity := by
    intro key entity
    rw [hlog, boundIn_append, or_iff_left (hnew key entity)]
  refine ⟨hcreated, hcues, fun key entity hk => hcarries.bound key entity (hb.mp hk),
    fun key entity hk => hcarries.fences key entity (hb.mp hk),
    fun key entity entity' hk hk' => h.oneEntity key entity entity' (hb.mp hk) (hb.mp hk'),
    fun key key' entity hk hk' => h.oneKey key key' entity (hb.mp hk) (hb.mp hk'),
    fun key entry entity he hk => ?_⟩
  exact (hcarries.held key entry entity he hk).elim hb.mpr id

omit [Layout P] [BEq P] in
theorem Recorded.quiet (h : Recorded t) (hcarries : Carries t t')
    (hlog : t'.log = t.log ++ new) (hq : ∀ change ∈ new, change.quiet) : Recorded t' := by
  have hc : ∀ {event c b}, Change.create event c b ∈ t'.log → Change.create event c b ∈ t.log := by
    intro event c b hmem
    rw [hlog, List.mem_append] at hmem
    exact hmem.resolve_right fun hn => by simpa [Change.quiet] using hq _ hn
  refine h.unbound hcarries hlog (quiet_boundIn hq)
    (fun event c b hmem => hcarries.created event c b (hc hmem)) fun event c b hmem hcue => ?_
  rw [hlog, creations_append, quiet_creations hq]
  exact h.cues event c b (hc hmem) hcue

section
variable (hsound : t.journal.Sound)
include hsound

omit [Layout P] [BEq P] in
theorem Recorded.create (h : Recorded t) (hcarries : Carries t t') {entry : Entry P}
    {committed : Bool} {binding : Option EntityId} (he : t.journal.entries[event.key]? = some entry)
    (hl : entry.lifetime = some ⟨event.expiresAt, event.delivery⟩)
    (hc : entry.delivered = true → event.delivery ≠ .oneShot)
    (hshown : t'.journal.entries[event.key]? = some (entry.shown event.payload))
    (hlog : t'.log = t.log ++ [.create event committed binding]) : Recorded t' := by
  have hnew : ∀ key entity, ¬BoundIn [Change.create event committed binding] key entity := by
    rintro key entity ⟨change, hmem, hbinds⟩
    rw [List.mem_singleton.mp hmem] at hbinds
    rcases hbinds with hbinds | hbinds <;> cases hbinds
  -- what was created under this key before had the same delivery, and was no cue
  have hprior : ∀ old c b, Change.create old c b ∈ t.log → old.key = event.key →
      old.delivery = event.delivery ∧ event.delivery ≠ .oneShot := by
    intro old c b hmem hkey
    rcases h.created old c b hmem with hpast | ⟨found, hfound, hd, hlife⟩
    · exact absurd (hkey ▸ hpast) (hsound.not_past he)
    · rw [hkey, he, Option.some.injEq] at hfound
      subst hfound
      rw [hl, Option.some.injEq, Lifetime.mk.injEq] at hlife
      exact ⟨hlife.2.symm, hc hd⟩
  have hmem' : ∀ {old c b}, Change.create old c b ∈ t'.log →
      Change.create old c b ∈ t.log ∨ old = event := by
    intro old c b hmem
    rw [hlog, List.mem_append, List.mem_singleton, Change.create.injEq] at hmem
    exact hmem.imp_right And.left
  refine h.unbound hcarries hlog hnew (fun old c b hmem => ?_) fun old c b hmem hcue => ?_
  · rcases hmem' hmem with hmem | rfl
    · exact hcarries.created old c b hmem
    · exact .inr ⟨_, hshown, rfl, hl⟩
  · rw [hlog, creations_append]
    by_cases hkey : old.key = event.key
    · have hnone : creations old.key t.log = 0 :=
        creations_eq_zero fun prior c' b' hprior' hk' => by
        obtain ⟨hsame, hne⟩ := hprior prior c' b' hprior' (hk'.trans hkey)
        rcases hmem' hmem with hmem | rfl
        · exact hne ((hprior old c b hmem hkey).1 ▸ hcue)
        · exact hne hcue
      rw [hnone]
      simp [creations, Change.creates, hkey]
    · have hother : creations old.key [Change.create event committed binding] = 0 := by
        simp [creations, Change.creates, Ne.symm hkey]
      rw [hother]
      rcases hmem' hmem with hmem | rfl
      · exact h.cues old c b hmem hcue
      · exact absurd rfl hkey

omit [Layout P] [BEq P] in
theorem Recorded.bind (h : Recorded t) (hcarries : Carries t t')
    {key : EventKey} {entry : Entry P} {change : Change P}
    (he : t.journal.entries[key]? = some entry) (hb : entry.binding = none)
    (ht : t.journal.Yields entity key)
    (he' : t'.journal.entries[key]? = some { entry with binding := some entity })
    (hbindings : t'.journal.bindings = t.journal.bindings.insert entity.index ⟨entity, key⟩)
    (hchange : change.Binds key entity) (hlog : t'.log = t.log ++ [change]) : Recorded t' := by
  have hsplit : ∀ {k e}, BoundIn t'.log k e → BoundIn t.log k e ∨ k = key ∧ e = entity := by
    intro k e hk
    rw [hlog, boundIn_append] at hk
    refine hk.imp_right ?_
    rintro ⟨c, hmem, hbinds⟩
    rw [List.mem_singleton.mp hmem] at hbinds
    exact hbinds.unique hchange
  have hc : ∀ {event c b}, Change.create event c b ∈ t'.log → Change.create event c b ∈ t.log := by
    intro event c b hmem
    rw [hlog, List.mem_append, List.mem_singleton] at hmem
    refine hmem.resolve_right fun heq => ?_
    rw [← heq] at hchange
    rcases hchange with hchange | hchange <;> cases hchange
  have hzero : ∀ k, creations k [change] = 0 := by
    intro k
    rcases hchange with rfl | rfl <;> simp [creations, Change.creates]
  -- the key was bound to nothing before
  have hfresh : ∀ {e}, ¬BoundIn t.log key e := by
    intro e hk
    rcases h.bound key e hk with hpast | ⟨found, hfound, hbound'⟩
    · exact hsound.not_past he hpast
    · rw [he, Option.some.injEq] at hfound
      rw [← hfound, hb] at hbound'
      cases hbound'
  -- and no key of the scope was bound to the entity
  have hfree : ∀ {k}, BoundIn t.log k entity → scopeOf k.action = scopeOf key.action → k = key := by
    intro k hk hsame
    obtain ⟨b, hb', hle, heq⟩ := h.fences k entity hk (hsame.trans (hsound.current key entry he).1)
    obtain ⟨hle', heq'⟩ := ht b hb'
    have hgen := Nat.le_antisymm hle hle'
    exact (heq hgen).symm.trans (heq' hgen.symm)
  refine ⟨fun event c b hmem => hcarries.created event c b (hc hmem), fun event c b hmem hcue => ?_,
    fun k e hk => ?_, fun k e hk => ?_, fun k e e' hk hk' => ?_, fun k k' e hk hk' hsame => ?_,
    fun k found e hfound hk => ?_⟩
  · rw [hlog, creations_append, hzero]
    exact h.cues event c b (hc hmem) hcue
  · rcases hsplit hk with hk | ⟨rfl, rfl⟩
    · exact hcarries.bound k e hk
    · exact .inr ⟨_, he', rfl⟩
  · rcases hsplit hk with hk | ⟨rfl, rfl⟩
    · exact hcarries.fences k e hk
    · intro _
      rw [hbindings, lookup_insert, if_pos rfl]
      exact ⟨_, rfl, le_rfl, fun _ => rfl⟩
  · rcases hsplit hk with hk | ⟨rfl, rfl⟩ <;> rcases hsplit hk' with hk' | ⟨hkey, rfl⟩
    · exact h.oneEntity k e e' hk hk'
    · exact absurd (hkey ▸ hk) hfresh
    · exact absurd hk' hfresh
    · rfl
  · rcases hsplit hk with hk | ⟨hkey, hentity⟩ <;> rcases hsplit hk' with hk' | ⟨hkey', hentity'⟩
    · exact h.oneKey k k' e hk hk' hsame
    · exact (hfree (hentity' ▸ hk) (hkey' ▸ hsame)).trans hkey'.symm
    · exact hkey.trans (hfree (hentity ▸ hk') (hkey ▸ hsame.symm)).symm
    · exact hkey.trans hkey'.symm
  · rcases hcarries.held k found e hfound hk with hk | hk
    · rw [hlog, boundIn_append]
      exact .inl hk
    · exact hk

/-- **The log stays true of the journal.** -/
theorem Recorded.step (h : Recorded t) (hs : Step t t') : Recorded t' := by
  have hcarries := h.carries hsound hs
  cases hs.emission with
  | quiet new hlog hq => exact h.quiet hcarries hlog hq
  | create entry event committed binding he hl hc hp hshown hlog =>
    exact h.create hsound hcarries he hl hc hshown hlog
  | bind key entity entry change he hb ht he' hbindings hchange hlog =>
    exact h.bind hsound hcarries he hb ht he' hbindings hchange hlog

theorem Recorded.steps (h : Recorded t) (hs : Steps t t') : Recorded t' := by
  induction hs with
  | refl => exact h
  | tail hs₁ hstep ih => exact ih.step (hsound.steps hs₁) hstep

end

end recorded

/-! ### Closed keys -/

namespace EventJournal
variable {j : EventJournal P} {key : EventKey}

def LiveAt (j : EventJournal P) (key : EventKey) : Prop :=
  ∃ entry : Entry P, j.entries[key]? = some entry ∧ entry.phase = .live

def Accepted (j : EventJournal P) (key : EventKey) : Prop :=
  ∃ entry : Entry P, j.entries[key]? = some entry ∧ entry.decision = .accepted

def Rejected (j : EventJournal P) (key : EventKey) : Prop :=
  ∃ entry : Entry P, j.entries[key]? = some entry ∧ entry.decision = .rejected

def Expired (j : EventJournal P) (key : EventKey) : Prop :=
  ∃ entry : Entry P, j.entries[key]? = some entry ∧ entry.phase = .expired

/-- Nothing presents the event of the key any more. -/
def Closed (j : EventJournal P) (key : EventKey) : Prop :=
  (∃ entry : Entry P, j.entries[key]? = some entry ∧ entry.Ended) ∨
    (key.action ∈ j.rejectedActions ∧ ¬j.LiveAt key) ∨ j.Past key.action

theorem Closed.not_live (h : j.Closed key) (hsound : j.Sound) : ¬j.LiveAt key := by
  rintro ⟨entry, he, hlive⟩
  rcases h with ⟨found, hfound, hended⟩ | ⟨-, hnot⟩ | hpast
  · rw [he, Option.some.injEq] at hfound
    exact hended.not_live (hfound ▸ hlive)
  · exact hnot ⟨entry, he, hlive⟩
  · exact hsound.not_past he hpast

theorem Closed.not_presentable (h : j.Closed key) (hsound : j.Sound) : ¬j.Presentable key := by
  rintro ⟨entry, he, hended, hfence⟩
  rcases h with ⟨found, hfound, hended'⟩ | ⟨hmem, -⟩ | hpast
  · rw [he, Option.some.injEq] at hfound
    exact hended (hfound ▸ hended')
  · exact hfence hmem
  · exact hsound.not_past he hpast

theorem closed_of_rejected_or_expired (hsound : j.Sound) (h : j.Rejected key ∨ j.Expired key) :
    j.Closed key := by
  rcases h with ⟨entry, he, hd⟩ | ⟨entry, he, hp⟩
  · exact .inl ⟨entry, he, hsound.decided key entry he hd⟩
  · exact .inl ⟨entry, he, .inl hp⟩

end EventJournal

section closed
variable [Layout P] [BEq P] {t t' : Trace P} {key : EventKey}

theorem Step.fenced {action : ActionKey} (hsound : t.journal.Sound) (hs : Step t t')
    (h : action ∈ t.journal.rejectedActions) :
    action ∈ t'.journal.rejectedActions ∨ t'.journal.Past action := by
  rcases hs.current (hsound.fenceCurrent action h) with hc | hpast
  · left
    cases hs with
    | fence j log other hc ha => exact (mem_set_insert _ _ _).mpr (.inr h)
    | retire j log sequence hseq hl =>
      exact (mem_set_filter _ _ _).mpr ⟨h, decide_eq_true hc.2⟩
    | reset j log memory scope replacement hscope hnew =>
      have hlater : replacement.Past action := past_of_later hscope (EventJournal.new_ok hnew).1
        ((hsound.fenceCurrent action h).1 ▸ .inr ⟨rfl, le_rfl⟩)
      exact absurd hlater hc.not_past
    | _ => exact h
  · exact .inr hpast

theorem EventJournal.Closed.step (h : t.journal.Closed key) (hsound : t.journal.Sound)
    (hs : Step t t') :
    t'.journal.Closed key ∧ creations key t'.log = creations key t.log := by
  have hnot := h.not_presentable hsound
  refine ⟨?_, ?_⟩
  · rcases h with ⟨entry, he, hended⟩ | ⟨hmem, hlive⟩ | hpast
    · rcases hs.evolves hsound he with ⟨entry', he', hev⟩ | hpast
      · exact .inl ⟨entry', he', hev.ended hended⟩
      · exact .inr (.inr hpast)
    · rcases hs.fenced hsound hmem with hmem | hpast
      · refine .inr (.inl ⟨hmem, ?_⟩)
        rintro ⟨entry', he', hlive'⟩
        rcases hs.origin he' with ⟨-, hne⟩ | ⟨entry, he, -, hphase⟩
        · exact hne hlive'
        · rcases hphase hlive' with hl | hp
          · exact hlive ⟨entry, he, hl⟩
          · exact hnot hp
      · exact .inr (.inr hpast)
    · exact .inr (.inr (hs.past hpast))
  · cases hs.emission with
    | quiet new hlog hq => rw [hlog, creations_append, quiet_creations hq, Nat.add_zero]
    | create entry event committed binding he hl hc hp hshown hlog =>
      have hkey : event.key ≠ key := by
        rintro rfl
        exact hnot hp
      rw [hlog, creations_append]
      simp [creations, Change.creates, hkey]
    | bind k entity entry change he hb ht he' hbindings hchange hlog =>
      rw [hlog, creations_append]
      rcases hchange with rfl | rfl <;> simp [creations, Change.creates]

theorem EventJournal.Closed.steps (h : t.journal.Closed key) (hsound : t.journal.Sound)
    (hs : Steps t t') :
    t'.journal.Closed key ∧ creations key t'.log = creations key t.log := by
  induction hs with
  | refl => exact ⟨h, rfl⟩
  | tail hs₁ hstep ih =>
    obtain ⟨hclosed, hcount⟩ := ih.1.step (hsound.steps hs₁) hstep
    exact ⟨hclosed, hcount.trans ih.2⟩

theorem Steps.fenced {action : ActionKey} (hsound : t.journal.Sound) (hs : Steps t t')
    (h : action ∈ t.journal.rejectedActions) :
    action ∈ t'.journal.rejectedActions ∨ t'.journal.Past action := by
  induction hs with
  | refl => exact .inl h
  | tail hs₁ hstep ih =>
    rcases ih with hmem | hpast
    · exact hstep.fenced (hsound.steps hs₁) hmem
    · exact .inr (hstep.past hpast)

end closed

/-! ### Terminality -/

section terminality
variable [Payload P] [Layout P] [BEq P] {memory : Bool} {scope : JournalScope} {limits : Limits}
  {start : EventJournal P}

theorem sound_start (hnew : EventJournal.new memory scope limits = .ok start) :
    (history start []).journal.Sound ∧ Recorded (history start []) := by
  obtain ⟨-, -, -, hentries, -, hfences⟩ := EventJournal.new_ok hnew
  have hentry : ∀ (key : EventKey) (entry : Entry P), start.entries[key]? ≠ some entry := by
    simp [hentries]
  have hlog : (history start []).log = [] := rfl
  have hnone : ∀ key entity, ¬BoundIn (history start []).log key entity := by
    simp [hlog, BoundIn]
  refine ⟨⟨fun key entry he => absurd he (hentry key entry),
    fun key entry he => absurd he (hentry key entry),
    fun key entry he => absurd he (hentry key entry), fun action hmem => ?_⟩, ?_⟩
  · change action ∈ start.rejectedActions at hmem
    simp [hfences] at hmem
  · refine ⟨fun _ _ _ hmem => ?_, fun _ _ _ hmem => ?_,
      fun key entity hk => absurd hk (hnone key entity),
      fun key entity hk => absurd hk (hnone key entity),
      fun key entity _ hk => absurd hk (hnone key entity),
      fun key _ entity hk => absurd hk (hnone key entity),
      fun key entry entity he => absurd he (hentry key entry)⟩ <;> simp [hlog] at hmem

theorem sound_history (hnew : EventJournal.new memory scope limits = .ok start)
    (calls : List (Call P)) :
    (history start calls).journal.Sound ∧ Recorded (history start calls) := by
  obtain ⟨hsound, hrecorded⟩ := sound_start hnew
  have hsteps := history_steps start [] calls
  exact ⟨hsound.steps hsteps, hrecorded.steps hsound hsteps⟩

/-- Between two moments of a run the journal moved by steps. -/
theorem take_steps (start : EventJournal P) (calls : List (Call P)) {m n : ℕ} (h : m ≤ n) :
    Steps (history start (calls.take m)) (history start (calls.take n)) := by
  have hsplit : calls.take n = calls.take m ++ (calls.take n).drop m := by
    conv_lhs => rw [← List.take_append_drop m (calls.take n), List.take_take, Nat.min_eq_left h]
  rw [hsplit]
  exact history_steps start _ _

/-- A key with a decision keeps it as long as it has an entry. -/
theorem decision_unique (hnew : EventJournal.new memory scope limits = .ok start)
    (calls : List (Call P)) {m n : ℕ} (h : m ≤ n) {key : EventKey} {e e' : Entry P}
    (he : (history start (calls.take m)).journal.entries[key]? = some e)
    (he' : (history start (calls.take n)).journal.entries[key]? = some e')
    (hd : e.decision ≠ .unresolved) : e'.decision = e.decision := by
  have hm := (sound_history hnew (calls.take m)).1
  have hn := (sound_history hnew (calls.take n)).1
  rcases Steps.evolves hm (take_steps start calls h) he with ⟨found, hfound, hev⟩ | hpast
  · rw [he', Option.some.injEq] at hfound
    exact hfound ▸ hev.decision hd
  · exact absurd hpast (hn.not_past he')

/-- What a successful `rejectAction` does to the keys of its action, before and after it. -/
theorem reject_action_fences (hnew : EventJournal.new memory scope limits = .ok start)
    (calls : List (Call P)) {i : ℕ} {memory' : Bool} {now : ℕ} {action : ActionKey}
    {changes : List (Change P)} (hi : calls[i]? = some (.rejectAction memory' now action))
    (hok : ((history start (calls.take i)).journal.call (.rejectAction memory' now action)).2 =
      .ok changes)
    {key : EventKey} (hk : key.action = action) :
    (∀ n, ¬(history start (calls.take n)).journal.Accepted key) ∧
      (history start (calls.take (i + 1))).journal.Closed key := by
  have hsound := fun n => (sound_history hnew (calls.take n)).1
  have hnext : calls.take (i + 1) = calls.take i ++ [.rejectAction memory' now action] := by
    rw [List.take_add_one, hi]
    rfl
  obtain ⟨journal', hcall⟩ : ∃ journal', (history start (calls.take i)).journal.transaction memory'
      (Staged.rejectAction now action) = (journal', .ok changes) := ⟨_, Prod.ext rfl hok⟩
  obtain ⟨staged, hstaged, hjournal, -⟩ := EventJournal.transaction_ok hcall
  obtain ⟨staged₁, hmoves₁, -, hcurrent, haccepted, hfenced, hphase⟩ :=
    Staged.rejectAction_ok hstaged
  have hafter : (history start (calls.take (i + 1))).journal = staged.journal := by
    rw [hnext, history_concat, hjournal]
    exact congrArg Prod.fst hcall
  refine ⟨fun n => ?_, .inr (.inl ⟨by rwa [hafter, hk], ?_⟩)⟩
  · rintro ⟨entry, he, hd⟩
    by_cases hn : n ≤ i
    · -- up to the call the event is not accepted: it would still be so inside the call
      have hinner := hmoves₁ (history start (calls.take i)).log
      rw [Staged.trace, List.append_nil] at hinner
      rcases Steps.evolves (hsound n) ((take_steps start calls hn).trans hinner) he with
        ⟨found, hfound, hev⟩ | hpast
      · refine haccepted key found hfound hk ?_
        rw [hev.decision (by simp [hd]), hd]
      · exact hcurrent.not_past (hk ▸ hpast)
    · have hsteps := take_steps start calls (Nat.succ_le_of_lt (not_le.mp hn))
      rcases Steps.fenced (hsound (i + 1)) hsteps (by rw [hafter]; exact hfenced) with hmem | hpast
      · exact (hsound n).fenced key entry he (hk ▸ hmem) hd
      · exact (hsound n).not_past he (hk ▸ hpast)
  · rintro ⟨entry, he, hlive⟩
    rw [hafter] at he
    simp [hphase key entry he hk] at hlive

/-- **Terminality.**  In every run of calls from a new journal, at any moments `m` and `n` of it:

* a cue is created at most once;
* a key that has been rejected or has expired is never live or created again;
* no key is accepted at one moment and rejected at another;
* no key of an action that was rejected as a whole is accepted at any moment, and from then on none
  is live or created;
* no key was bound to two entities, and no entity to two keys of one scope; what an entry binds was
  reported as bound. -/
theorem terminality (hnew : EventJournal.new memory scope limits = .ok start)
    (calls : List (Call P)) :
    let moment := fun n => history start (calls.take n)
    (∀ event committed binding, .create event committed binding ∈ (history start calls).log →
      event.delivery = .oneShot → creations event.key (history start calls).log = 1) ∧
    (∀ m n key, m ≤ n → (moment m).journal.Rejected key ∨ (moment m).journal.Expired key →
      ¬(moment n).journal.LiveAt key ∧ creations key (moment n).log =
        creations key (moment m).log) ∧
    (∀ m n key, ¬((moment m).journal.Accepted key ∧ (moment n).journal.Rejected key)) ∧
    (∀ i memory' now action changes, calls[i]? = some (.rejectAction memory' now action) →
      ((moment i).journal.call (.rejectAction memory' now action)).2 = .ok changes →
      ∀ key : EventKey, key.action = action →
        (∀ n, ¬(moment n).journal.Accepted key) ∧
        ∀ n, i < n → ¬(moment n).journal.LiveAt key ∧
          creations key (moment n).log = creations key (moment (i + 1)).log) ∧
    (∀ key entity entity', BoundIn (history start calls).log key entity →
      BoundIn (history start calls).log key entity' → entity = entity') ∧
    (∀ key key' entity, BoundIn (history start calls).log key entity →
      BoundIn (history start calls).log key' entity → scopeOf key.action = scopeOf key'.action →
      key = key') ∧
    ∀ (n : ℕ) (key : EventKey) (entry : Entry P) entity,
      (moment n).journal.entries[key]? = some entry → entry.binding = some entity →
      BoundIn (moment n).log key entity := by
  intro moment
  have hsound := fun n => (sound_history hnew (calls.take n)).1
  have hrecorded := (sound_history hnew calls).2
  have hclosed : ∀ {m n key}, m ≤ n → (moment m).journal.Closed key →
      ¬(moment n).journal.LiveAt key ∧ creations key (moment n).log =
        creations key (moment m).log := by
    intro m n key hmn h
    obtain ⟨hclosed, hcount⟩ := h.steps (hsound m) (take_steps start calls hmn)
    exact ⟨hclosed.not_live (hsound n), hcount⟩
  refine ⟨hrecorded.cues, fun m n key hmn h => ?_, fun m n key => ?_, ?_, hrecorded.oneEntity,
    hrecorded.oneKey, fun n => (sound_history hnew (calls.take n)).2.held⟩
  · exact hclosed hmn (EventJournal.closed_of_rejected_or_expired (hsound m) h)
  · rintro ⟨⟨e, he, hd⟩, e', he', hd'⟩
    rcases le_total m n with hmn | hnm
    · have := decision_unique hnew calls hmn he he' (by simp [hd])
      simp [hd, hd'] at this
    · have := decision_unique hnew calls hnm he' he (by simp [hd'])
      simp [hd, hd'] at this
  · intro i memory' now action changes hi hok key hk
    obtain ⟨haccepted, h⟩ := reject_action_fences hnew calls hi hok hk
    exact ⟨haccepted, fun n hn => hclosed hn h⟩

/-- An event that a replay creates. -/
def decideEvent : EventRecord (List UInt8) := ⟨⟨⟨⟨1, 1, 1, 0⟩, 1, 0⟩, 1, 7⟩, 60, .reversible, [5]⟩

/-- The event is created, accepted with an entity, and then to be rejected; another action is
rejected as a whole. -/
def decideCalls : List (Call (List UInt8)) :=
  [.reconcile true 1 ⟨1, 1⟩ [decideEvent] fun _ => true,
    .resolve true 2 decideEvent.identity (.accepted (some ⟨3, 1⟩)),
    .resolve true 2 decideEvent.identity .rejected, .rejectAction true 3 ⟨1, 1, 2, 0⟩]

/-- The event is accepted by the second call and never rejected; no event of the other action is
ever accepted. -/
theorem terminality_decide :
    ∃ start : EventJournal (List UInt8), EventJournal.new true ⟨1, 1⟩ Limits.default = .ok start ∧
      (history start decideCalls).log =
        [.create decideEvent false none, .confirm decideEvent.key, .bind decideEvent.key ⟨3, 1⟩] ∧
      (history start (decideCalls.take 2)).journal.Accepted decideEvent.key ∧
      (∀ n, ¬(history start (decideCalls.take n)).journal.Rejected decideEvent.key) ∧
      ∀ key : EventKey, key.action = ⟨1, 1, 2, 0⟩ →
        ∀ n, ¬(history start (decideCalls.take n)).journal.Accepted key := by
  have hterminal :=
    terminality (show EventJournal.new true ⟨1, 1⟩ Limits.default = .ok _ from rfl) decideCalls
  obtain ⟨-, -, hdecided, hfenced, -⟩ := hterminal
  refine ⟨_, rfl, by decide +kernel, ⟨_, rfl, by decide +kernel⟩, fun n hrejected => ?_,
    fun key hkey => ?_⟩
  · exact hdecided 2 n _ ⟨⟨_, rfl, by decide +kernel⟩, hrejected⟩
  · exact (hfenced 3 true 3 ⟨1, 1, 2, 0⟩ _ rfl rfl key hkey).1

end terminality

end Net.Events
