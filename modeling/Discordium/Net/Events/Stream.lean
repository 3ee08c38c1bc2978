import Discordium.Net.Events.Steps

/-!
# Net — Events — Stream

A renderer sees nothing of the journal but the changes it returns.  The screen of a renderer that
makes them all is the live part of the journal: the keys whose entry is live and not a cue, each
with its payload, whether it is accepted, and its binding.

The journal compares payloads with their own `==` and emits no update for a payload that is equal to
the one it holds.  So the screen has the journal's payload up to that equality, and exactly it where
the equality of payloads is real equality.
-/

namespace Net.Events
open Lib Relation
open Std (ExtTreeMap)

variable {P : Type}

/-! ### The renderer -/

/-- What a renderer keeps of an event. -/
@[ext] structure Shown (P : Type) where
  payload : P
  committed : Bool
  binding : Option EntityId

abbrev Screen (P : Type) := EventKey → Option (Shown P)

/-- The screen after one change.  Cues are played and not kept. -/
def Change.apply (screen : Screen P) : Change P → Screen P
  | .create event committed binding =>
    if event.delivery = .oneShot then screen
    else Function.update screen event.key (some ⟨event.payload, committed, binding⟩)
  | .update event =>
    if event.delivery = .oneShot then screen
    else Function.update screen event.key
      ((screen event.key).map fun shown => { shown with payload := event.payload })
  | .cancel key _ => Function.update screen key none
  | .confirm key =>
    Function.update screen key ((screen key).map fun shown => { shown with committed := true })
  | .bind key entity =>
    Function.update screen key ((screen key).map fun shown => { shown with binding := some entity })
  | .bindRetired _ _ => screen
  | .reset _ _ => fun _ => none

/-- The screen of a renderer that starts empty and makes every change in order. -/
def render (log : List (Change P)) : Screen P := log.foldl Change.apply fun _ => none

theorem render_append (log new : List (Change P)) :
    render (log ++ new) = new.foldl Change.apply (render log) :=
  List.foldl_append

/-- The key a change is about. -/
def Change.key? : Change P → Option EventKey
  | .create event _ _ | .update event => some event.key
  | .cancel key _ | .confirm key | .bind key _ | .bindRetired key _ => some key
  | .reset _ _ => none

variable {key other : EventKey}

/-- A change leaves the other keys alone. -/
theorem Change.apply_other {change : Change P} (screen : Screen P)
    (hk : change.key? = some key) (ho : other ≠ key) :
    change.apply screen other = screen other := by
  cases change with
  | create event committed binding | update event =>
    cases hk
    simp only [apply]
    split
    · rfl
    · exact Function.update_of_ne ho _ _
  | cancel | confirm | bind =>
    cases hk
    exact Function.update_of_ne ho _ _
  | bindRetired => rfl
  | reset => cases hk

theorem foldl_apply_other {changes : List (Change P)} (screen : Screen P)
    (hk : ∀ change ∈ changes, change.key? = some key) (ho : other ≠ key) :
    changes.foldl Change.apply screen other = screen other := by
  induction changes generalizing screen with
  | nil => rfl
  | cons change changes ih =>
    rw [List.foldl_cons, ih _ fun c hc => hk c (List.mem_cons_of_mem _ hc)]
    exact change.apply_other screen (hk change List.mem_cons_self) ho

/-! ### The live part of the journal -/

def Entry.view (entry : Entry P) : Option (Shown P) :=
  if entry.held then
    entry.payload.map fun payload => ⟨payload, entry.decision = .accepted, entry.binding⟩
  else none

def EventJournal.view (journal : EventJournal P) : Screen P :=
  fun key => journal.entries[key]?.bind Entry.view

/-- A live entry has a payload and a lifetime. -/
def Entry.Ready (entry : Entry P) : Prop :=
  entry.phase = .live → entry.payload.isSome ∧ entry.lifetime.isSome

theorem EventJournal.view_setEntry (journal : EventJournal P) (entry : Entry P) (key : EventKey) :
    (journal.setEntry entry).view key =
      if entry.identity.key = key then entry.view else journal.view key := by
  unfold view
  rw [lookup_setEntry]
  split <;> rfl

/-- What a renderer holds agrees with an entry, payloads compared by `E`. -/
def Shown.Agrees (E : P → P → Prop) (a b : Shown P) : Prop :=
  E a.payload b.payload ∧ a.committed = b.committed ∧ a.binding = b.binding

/-- The screen agrees with the journal, and every live entry is ready. -/
structure Shows (E : P → P → Prop) (t : Trace P) : Prop where
  agree : ∀ key, Option.Rel (Shown.Agrees E) (render t.log key) (t.journal.view key)
  ready : ∀ (key : EventKey) (entry : Entry P), t.journal.entries[key]? = some entry → entry.Ready

section shows
variable {E : P → P → Prop} {j : EventJournal P} {log : List (Change P)} {entry : Entry P}

theorem Shows.own (h : Shows E ⟨j, log⟩) (he : j.entries[entry.identity.key]? = some entry) :
    Option.Rel (Shown.Agrees E) (render log entry.identity.key) entry.view := by
  have := h.agree entry.identity.key
  rwa [EventJournal.view, he] at this

/-- One entry changes, with changes about its key. -/
theorem Shows.set (h : Shows E ⟨j, log⟩) {new : List (Change P)}
    (hnew : ∀ change ∈ new, change.key? = some entry.identity.key)
    (hown : Option.Rel (Shown.Agrees E) (new.foldl Change.apply (render log) entry.identity.key)
      entry.view)
    (hready : entry.Ready) : Shows E ⟨j.setEntry entry, log ++ new⟩ where
  agree key := by
    rw [render_append, EventJournal.view_setEntry]
    split_ifs with hk
    · rwa [← hk]
    · rw [foldl_apply_other _ hnew (Ne.symm hk)]
      exact h.agree key
  ready key found hfound := by
    rw [EventJournal.lookup_setEntry] at hfound
    split_ifs at hfound
    · exact Option.some.inj hfound ▸ hready
    · exact h.ready key found hfound

variable {entry' : Entry P}

/-- An entry leaves the screen. -/
theorem Shows.close (h : Shows E ⟨j, log⟩) {reason : CancelReason}
    (he : j.entries[entry.identity.key]? = some entry) (hi : entry'.identity = entry.identity)
    (hp : entry'.phase ≠ .live) :
    Shows E ⟨j.setEntry entry', log ++ entry.cancellation reason⟩ := by
  have hview : entry'.view = none := by simp [Entry.view, Entry.held, hp]
  refine h.set (fun change hc => ?_) ?_ fun hl => absurd hl hp
  · unfold Entry.cancellation at hc
    split_ifs at hc
    · rw [List.mem_singleton.mp hc, hi]
      rfl
    · simp at hc
  · rw [hview, hi]
    unfold Entry.cancellation
    split_ifs with hh
    · simp [Change.apply]
    · have := h.own he
      rwa [Entry.view, if_neg hh] at this

/-- An entry changes in nothing the screen shows. -/
theorem Shows.silent (h : Shows E ⟨j, log⟩)
    (hv : Option.Rel (Shown.Agrees E) (render log entry.identity.key) entry.view)
    (hr : entry.Ready) : Shows E ⟨j.setEntry entry, log⟩ := by
  have hset := h.set (List.forall_mem_nil _) hv hr
  rwa [List.append_nil] at hset

/-- A change that keeps what the screen holds of the entry, and the flag and binding it shows. -/
theorem Shows.map (h : Shows E ⟨j, log⟩) {change : Change P} {f : Shown P → Shown P}
    (he : j.entries[entry.identity.key]? = some entry) (hi : entry'.identity = entry.identity)
    (hk : change.key? = some entry.identity.key)
    (hc : change.apply (render log) entry.identity.key = (render log entry.identity.key).map f)
    (hv : entry'.view = entry.view.map f)
    (hf : ∀ a b, Shown.Agrees E a b → Shown.Agrees E (f a) (f b)) (hr : entry'.Ready) :
    Shows E ⟨j.setEntry entry', log ++ [change]⟩ := by
  refine h.set (fun c hm => ?_) ?_ hr
  · rw [List.mem_singleton.mp hm, hk, hi]
  · rw [hi, hv, List.foldl_cons, List.foldl_nil, hc]
    have hown := h.own he
    generalize render log entry.identity.key = screen at hown ⊢
    generalize entry.view = view at hown ⊢
    cases hown with
    | none => exact .none
    | some hab => exact .some (hf _ _ hab)

theorem Entry.Ready.view_live (hr : entry.Ready) (hp : entry.phase = .live) {life : Lifetime}
    (hl : entry.lifetime = some life) (hd : life.delivery ≠ .oneShot) :
    ∃ payload, entry.payload = some payload ∧
      entry.view = some ⟨payload, entry.decision = .accepted, entry.binding⟩ := by
  obtain ⟨payload, hpay⟩ := Option.isSome_iff_exists.mp (hr hp).1
  exact ⟨payload, hpay, by simp [view, held, hp, hl, hd, hpay]⟩

theorem Shows.present [BEq P] (h : Shows E ⟨j, log⟩) {event : EventRecord P} (hrefl : ∀ p, E p p)
    (htrans : ∀ {p q r}, E p q → E q r → E p r) (hbeq : ∀ {p q : P}, (p == q) = true → E p q)
    (hk : event.identity = entry.identity) (he : j.entries[entry.identity.key]? = some entry)
    (hl : entry.lifetime = some ⟨event.expiresAt, event.delivery⟩) :
    Shows E ⟨j.setEntry (entry.shown event.payload), log ++ entry.presentation event⟩ := by
  have hkey : event.key = entry.identity.key := congrArg EventIdentity.key hk
  refine h.set (fun change hc => ?_) ?_ fun _ => ⟨rfl, by rw [Entry.shown, hl]; rfl⟩
  · unfold Entry.presentation at hc
    split_ifs at hc
    · rw [List.mem_singleton.mp hc]
      exact congrArg some hkey
    · rw [List.mem_singleton.mp hc]
      exact congrArg some hkey
    · simp at hc
  have hown := h.own he
  by_cases hcue : event.delivery = .oneShot
  · -- a cue is on no screen, and no change puts it there
    have hnone : entry.view = none := by simp [Entry.view, Entry.held, hl, hcue]
    have hnone' : (entry.shown event.payload).view = none := by
      simp [Entry.view, Entry.held, Entry.shown, hl, hcue]
    rw [hnone] at hown
    rw [hnone']
    unfold Entry.presentation
    split_ifs <;> simpa [Change.apply, hcue, Entry.shown] using hown
  have hview : (entry.shown event.payload).view =
      some ⟨event.payload, entry.decision = .accepted, entry.binding⟩ := by
    simp [Entry.view, Entry.held, Entry.shown, hl, hcue]
  rw [hview]
  by_cases hp : entry.phase = .live
  · obtain ⟨payload, hpay, hold⟩ := (h.ready _ entry he).view_live hp hl hcue
    rw [hold] at hown
    generalize hscreen : render log entry.identity.key = screen at hown
    cases hown with | some hab => ?_
    obtain ⟨hpayload, hcommitted, hbinding⟩ := hab
    unfold Entry.presentation
    rw [if_neg (fun hc => hc.1 hp)]
    split_ifs with hchanged
    · simp only [List.foldl_cons, List.foldl_nil, Change.apply, if_neg hcue, hkey, Entry.shown,
        Function.update_self, hscreen, Option.map_some]
      exact .some ⟨hrefl _, hcommitted, hbinding⟩
    · have hsame : (payload == event.payload) = true := by
        simpa [hpay, hcue, bne] using hchanged
      simp only [List.foldl_nil, Entry.shown, hscreen]
      exact .some ⟨htrans hpayload (hbeq hsame), hcommitted, hbinding⟩
  · unfold Entry.presentation
    rw [if_pos ⟨hp, .inr hcue⟩]
    simp only [List.foldl_cons, List.foldl_nil, Change.apply, if_neg hcue, hkey, Entry.shown,
      Function.update_self]
    exact .some ⟨hrefl _, rfl, rfl⟩

theorem Shows.bind (h : Shows E ⟨j, log⟩) {entity : EntityId}
    (he : j.entries[entry.identity.key]? = some entry) :
    Shows E ⟨(j.setBinding ⟨entity, entry.identity.key⟩).setEntry
      { entry with binding := some entity },
      log ++ [entry.bindChange entity]⟩ := by
  have h' : Shows E ⟨j.setBinding ⟨entity, entry.identity.key⟩, log⟩ := ⟨h.agree, h.ready⟩
  unfold Entry.bindChange
  split_ifs with hretired
  · have hp : entry.phase ≠ .live := by rcases hretired with hp | hp | hp <;> simp [hp]
    refine h'.set (fun c hc => ?_) ?_ fun hl => absurd hl hp
    · rw [List.mem_singleton.mp hc]
      rfl
    · have hown := h.own he
      simpa [Change.apply, Entry.view, Entry.held, hp] using hown
  · refine h'.map he rfl rfl (Function.update_self ..) ?_ (fun a b hab => ⟨hab.1, hab.2.1, rfl⟩)
      (h.ready _ entry he)
    change (if entry.held then _ else none) = Option.map _ (if entry.held then _ else none)
    split
    · rw [Option.map_map]
      rfl
    · rfl

variable {t t' : Trace P}

/-- Every step keeps the screen and the journal in agreement. -/
theorem Shows.step [Layout P] [BEq P] (hrefl : ∀ p, E p p)
    (htrans : ∀ {p q r}, E p q → E q r → E p r) (hbeq : ∀ {p q : P}, (p == q) = true → E p q)
    (h : Shows E t) (hs : Step t t') : Shows E t' := by
  cases hs with
  | tick j log now => exact ⟨h.agree, h.ready⟩
  | fence j log action => exact ⟨h.agree, h.ready⟩
  | openEntry j log identity hc hnone =>
    refine h.silent ?_ fun hl => absurd hl (by simp [Entry.unseen])
    have hview := h.agree identity.key
    rwa [EventJournal.view, hnone] at hview
  | live j log entry life he hl =>
    have hview : { entry with lifetime := some life }.view = entry.view := by
      cases hold : entry.lifetime with
      | some old =>
        have : old = life := by simpa [hold] using hl
        rw [← this, ← hold]
      | none =>
        have hp : entry.phase ≠ .live := fun hp => by simpa [hold] using (h.ready _ entry he hp).2
        simp [Entry.view, Entry.held, hp]
    exact h.silent (hview ▸ h.own he) fun hp => ⟨(h.ready _ entry he hp).1, rfl⟩
  | close j log entry phase reason he hp =>
    refine h.close he rfl ?_
    rcases hp with rfl | ⟨rfl, -⟩ <;> simp [Entry.close]
  | reject j log entry he hd => exact h.close he rfl (by simp [Entry.close])
  | present j log entry event hk he hl hf hp => exact h.present hrefl htrans hbeq hk he hl
  | accept j log entry he hd hf =>
    refine h.map he rfl rfl (Function.update_self ..) ?_ (fun a b hab => ⟨hab.1, rfl, hab.2.2⟩)
      (h.ready _ entry he)
    change (if entry.held then _ else none) = Option.map _ (if entry.held then _ else none)
    split
    · rw [Option.map_map]
      rfl
    · rfl
  | bind j log entry entity he hb ht => exact h.bind he
  | retire j log sequence hseq hl =>
    refine ⟨fun key => ?_, fun key entry he => ?_⟩
    · have hagree := h.agree key
      have hview : (j.retain sequence).view key = j.view key := by
        unfold EventJournal.view EventJournal.retain
        rw [ExtTreeMap.getElem?_filter']
        cases he : j.entries[key]? with
        | none => rfl
        | some entry =>
          by_cases hcommand : sequence < entry.identity.key.action.command
          · simp [Option.filter, hcommand]
          · -- what is retired is not live, so it was on no screen
            rw [j.keyed key entry he] at hcommand
            have hp := hl key entry he (by omega)
            simp [Option.filter, hcommand, j.keyed key entry he, Entry.view, Entry.held, hp]
      rwa [hview]
    · rw [EventJournal.retain, ExtTreeMap.getElem?_filter'] at he
      exact h.ready key entry (Option.eq_some_of_filter_eq_some he)
  | reset j log memory scope replacement hscope hnew =>
    obtain ⟨-, -, -, hentries, -⟩ := EventJournal.new_ok hnew
    refine ⟨fun key => ?_, fun key entry he => ?_⟩
    · rw [render_append, EventJournal.view, hentries]
      simp [Change.apply]
    · simp [hentries] at he

theorem Shows.steps [Layout P] [BEq P] (hrefl : ∀ p, E p p)
    (htrans : ∀ {p q r}, E p q → E q r → E p r) (hbeq : ∀ {p q : P}, (p == q) = true → E p q)
    (h : Shows E t) (hs : Steps t t') : Shows E t' := by
  induction hs with
  | refl => exact h
  | tail _ hstep ih => exact ih.step hrefl htrans hbeq hstep

end shows

/-! ### The stream -/

theorem EventJournal.view_isSome {journal : EventJournal P}
    (hr : ∀ (key : EventKey) (entry : Entry P), journal.entries[key]? = some entry → entry.Ready)
    (key : EventKey) :
    (journal.view key).isSome ↔ ∃ (entry : Entry P) (life : Lifetime), journal.entries[key]? =
    some entry ∧
      entry.phase = .live ∧ entry.lifetime = some life ∧ life.delivery ≠ .oneShot := by
  constructor
  · intro h
    obtain ⟨shown, hshown⟩ := Option.isSome_iff_exists.mp h
    obtain ⟨entry, he, hv⟩ := Option.bind_eq_some_iff.mp hshown
    unfold Entry.view at hv
    split_ifs at hv with hh
    obtain ⟨hp, hlife⟩ := of_decide_eq_true hh
    cases hl : entry.lifetime with
    | none => simp [hl] at hlife
    | some life => exact ⟨entry, life, he, hp, hl, by simpa [hl] using hlife⟩
  · rintro ⟨entry, life, he, hp, hl, hd⟩
    obtain ⟨payload, -, hv⟩ := (hr key entry he).view_live hp hl hd
    rw [view, he, Option.bind_some, hv]
    rfl

section stream
variable [Payload P] [Layout P] [BEq P] {memory : Bool} {scope : JournalScope} {limits : Limits}
  {start : EventJournal P}

/-- The screen agrees with the journal after every run, payloads compared by any preorder that
contains their own equality. -/
theorem shows_history {E : P → P → Prop} (hrefl : ∀ p, E p p)
    (htrans : ∀ {p q r}, E p q → E q r → E p r) (hbeq : ∀ {p q : P}, (p == q) = true → E p q)
    (hnew : EventJournal.new memory scope limits = .ok start) (calls : List (Call P)) :
    Shows E (history start calls) := by
  obtain ⟨-, -, -, hentries, -⟩ := EventJournal.new_ok hnew
  have hstart : Shows E (history start []) := by
    refine ⟨fun key => ?_, fun key entry he => ?_⟩
    · change Option.Rel _ none (start.entries[key]?.bind Entry.view)
      simp [hentries]
    · change start.entries[key]? = some entry at he
      simp [hentries] at he
  exact hstart.steps hrefl htrans hbeq (history_steps start [] calls)

/-- **The change stream refines the journal.**  After every run of calls, the screen of a renderer
that made all the returned changes is the live part of the journal: payloads equal up to their own
`==`, and the very same map where that equality is real.  Its keys are the live ones that are no
cues.  A call that fails returns no change and leaves the journal as it was. -/
theorem change_stream_refines [PartialEquivBEq P] (hnew : EventJournal.new memory scope limits =
    .ok start)
    (calls : List (Call P)) :
    let s := after start calls
    (∀ key, Option.Rel (Shown.Agrees fun p q => p = q ∨ (p == q) = true)
      (render (returned s.2) key) (s.1.view key)) ∧
    (LawfulBEq P → render (returned s.2) = s.1.view) ∧
    (∀ key, (s.1.view key).isSome ↔ ∃ (entry : Entry P) (life : Lifetime),
      s.1.entries[key]? = some entry ∧ entry.phase = .live ∧ entry.lifetime = some life ∧
        life.delivery ≠ .oneShot) ∧
    ∀ c error, (s.1.call c).2 = .error error →
      (s.1.call c).1 = s.1 ∧ returned (s.2 ++ [(s.1.call c).2]) = returned s.2 := by
  intro s
  have hshows := shows_history (E := fun p q => p = q ∨ (p == q) = true) (fun p => .inl rfl)
    (fun {p q r} hpq hqr => ?_) .inr hnew calls
  refine ⟨hshows.agree, fun hlawful => ?_, EventJournal.view_isSome hshows.ready,
    fun c error hc => ?_⟩
  · have hexact := shows_history (E := Eq) (fun p => rfl) Eq.trans (fun h => eq_of_beq h) hnew calls
    funext key
    have hkey := hexact.agree key
    generalize hv : (history start calls).journal.view key = view at hkey
    generalize hr : render (history start calls).log key = shown at hkey
    have : shown = view := by
      cases hkey with
      | none => rfl
      | some hab => rw [Shown.ext hab.1 hab.2.1 hab.2.2]
    exact hr.trans (this.trans hv.symm)
  · refine ⟨EventJournal.call_error (Prod.ext rfl hc), ?_⟩
    simp [returned, hc, Except.toOption]
  · rcases hpq with rfl | hpq
    · exact hqr
    · rcases hqr with rfl | hqr
      · exact .inr hpq
      · exact .inr (PartialEquivBEq.trans hpq hqr)

/-- A cue and an object of one action, replayed once. -/
def spawnCall (payload : UInt8) : Call (List UInt8) :=
  .reconcile true 4 ⟨3, 4⟩
    [⟨⟨⟨⟨1, 1, 1, 0⟩, 1, 0⟩, 3, 7⟩, 20, .simulationOwned, [payload]⟩,
      ⟨⟨⟨⟨1, 1, 1, 0⟩, 2, 0⟩, 3, 7⟩, 20, .oneShot, [payload]⟩] fun _ => true

theorem change_stream_refines_spawn :
    ∃ start : EventJournal (List UInt8), EventJournal.new true ⟨1, 1⟩ Limits.default = .ok start ∧
      render (returned (after start [spawnCall 1, spawnCall 2]).2) =
        (after start [spawnCall 1, spawnCall 2]).1.view :=
  ⟨_, rfl, (change_stream_refines (show EventJournal.new true ⟨1, 1⟩ Limits.default =
    .ok _ from rfl)
    [spawnCall 1, spawnCall 2]).2.1 inferInstance⟩

end stream

end Net.Events
