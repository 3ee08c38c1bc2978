import Discordium.Net.Outcomes.Ledger

/-!
# Net — Outcomes — Records

What each call does to the results a ledger holds.  The `entry` of a key is its owner and, once it
is finished, its terminal outcome; the counts, the delivery sets and the marks of a record serve the
bounds and the publication only, and every call is described by the entries it changes.  A result is
entered once: `reserve` adds pending entries, `cancelReservations` takes pending entries away,
`finish` completes one, and only `expire` drops a completed one.
-/

namespace Net.OutcomeLedger
open Lib
open Std (ExtTreeMap)

variable {P : Type} {ledger ledger' : OutcomeLedger P}

/-- The owner and the terminal outcome a ledger holds for a key. -/
def entry (ledger : OutcomeLedger P) (key : ActionKey) : Option (ℕ × Option (TerminalOutcome P)) :=
  ledger.records[key]?.map fun record => (record.owner, record.terminal)

/-! ### Readings -/

variable {key : ActionKey} {owner : ℕ} {keys : List ActionKey}

theorem entry_eq_none : ledger.entry key = none ↔ ledger.records[key]? = none := by
  simp [entry]

/-- A key is held with the owner and the outcome of its record. -/
theorem entry_eq_some {terminal : Option (TerminalOutcome P)} :
    ledger.entry key = some (owner, terminal) ↔
      ∃ record, ledger.records[key]? = some record ∧ record.owner = owner ∧
        record.terminal = terminal := by
  simp [entry]

/-- An owner finds its own results only. -/
theorem lookup_eq_some {terminal : TerminalOutcome P} :
    ledger.lookup owner key = some terminal ↔ ledger.entry key = some (owner, some terminal) := by
  simp only [lookup, entry_eq_some, Option.bind_eq_some_iff, Option.filter_eq_some_iff,
    decide_eq_true_eq, and_assoc]

/-- A new ledger holds nothing. -/
theorem new_entry {recordBytes : ℕ} {limits : OutcomeLimits}
    (h : new recordBytes limits = .ok ledger) (key : ActionKey) :
    ledger.entry key = none ∧ ledger.limits = limits := by
  unfold new at h
  split at h
  · cases h
  · split_ifs at h
    cases h
    exact ⟨by simp [entry], rfl⟩

/-! ### Reservations -/

/-- A refused reservation changes nothing. -/
theorem reserve_error {error : OutcomeError}
    (h : ledger.reserve owner keys = (ledger', .error error)) : ledger' = ledger := by
  unfold reserve at h
  split_ifs at h
  · cases h; rfl
  · cases h; rfl
  · cases h; rfl
  · dsimp only at h
    split at h
    · cases h; rfl
    · split_ifs at h <;> cases h
      rfl

/-- What a granted reservation adds: exactly the keys that were not held yet. -/
structure Granted (ledger : OutcomeLedger P) (owner : ℕ) (keys : List ActionKey)
    (ledger' : OutcomeLedger P) (granted : List ActionKey) : Prop where
  mem_iff : ∀ key, key ∈ granted ↔ key ∈ keys ∧ ledger.entry key = none
  entry_eq : ∀ key, ledger'.entry key =
    if key ∈ granted then some (owner, none) else ledger.entry key
  /-- A key that is held already is held for the same owner. -/
  held : ∀ key ∈ keys, ∀ held, ledger.entry key = some held → held.1 = owner
  limits : ledger'.limits = ledger.limits

/-- A reservation is granted for the keys that are new. -/
theorem reserve_ok {granted : List ActionKey}
    (h : ledger.reserve owner keys = (ledger', .ok granted)) :
    Granted ledger owner keys ledger' granted := by
  unfold reserve at h
  split_ifs at h with _ _ hforeign
  · simp at h
  · simp at h
  · simp at h
  dsimp only at h
  split at h
  · simp at h
  split at h
  · simp at h
  cases h
  refine ⟨fun key => ?_, fun key => ?_, fun key hk held he => ?_, rfl⟩
  · rw [fresh, List.mem_filter, entry_eq_none, contains_eq_isSome]
    cases ledger.records[key]? <;> simp
  · simp only [entry, lookup_foldl_insert]
    split_ifs <;> rfl
  · obtain ⟨record, hr, ho⟩ : ∃ record, ledger.records[key]? = some record ∧
        record.owner = held.1 := by
      obtain ⟨record, hr, rfl⟩ := Option.map_eq_some_iff.mp he
      exact ⟨record, hr, rfl⟩
    by_contra hne
    refine hforeign (List.any_eq_true.mpr ⟨key, hk, ?_⟩)
    simp [hr, ho, hne]

@[simp] theorem undeliver_records (stream : DeliveryStream) (queued : Queued) :
    (ledger.undeliver stream queued).records = ledger.records := rfl

@[simp] theorem undeliver_limits (stream : DeliveryStream) (queued : Queued) :
    (ledger.undeliver stream queued).limits = ledger.limits := rfl

/-- `remove` erases the record of the key. -/
theorem remove_records (key : ActionKey) :
    (ledger.remove key).records = ledger.records.erase key ∧
      (ledger.remove key).limits = ledger.limits := by
  unfold remove
  split
  · rename_i h
    refine ⟨ExtTreeMap.ext_getElem? fun a => ?_, rfl⟩
    rw [lookup_erase]
    split_ifs with ha
    · rw [← ha, h]
    · rfl
  · rename_i record _
    cases record.terminal <;> simp

@[simp] theorem remove_limits (key : ActionKey) : (ledger.remove key).limits = ledger.limits :=
  (remove_records key).2

/-- Removing a record drops the entry of its key. -/
theorem remove_entry (key a : ActionKey) :
    (ledger.remove key).entry a = if key = a then none else ledger.entry a := by
  rw [entry, (remove_records key).1, lookup_erase]
  split_ifs <;> rfl

/-- Whether a key is held without a terminal outcome. -/
def isReserved (ledger : OutcomeLedger P) (key : ActionKey) : Prop :=
  ∃ owner, ledger.entry key = some (owner, none)

theorem cancelReservations_step (key : ActionKey) (keys : List ActionKey) :
    ledger.cancelReservations (key :: keys) =
      (ledger.cancelReservations [key]).cancelReservations keys := rfl

open Classical in
/-- Cancelling one key drops its entry while it is pending. -/
theorem cancelReservations_single (key a : ActionKey) :
    (ledger.cancelReservations [key]).entry a =
      if key = a ∧ ledger.isReserved a then none else ledger.entry a := by
  have hiff : ledger.records[key]?.any (fun record => record.terminal.isNone) = true ↔
      ledger.isReserved key := by
    simp [isReserved, entry_eq_some, Option.any_eq_true]
  simp only [cancelReservations, List.foldl_cons, List.foldl_nil]
  by_cases hk : ledger.isReserved key
  · rw [if_pos (hiff.mpr hk), remove_entry]
    by_cases ha : key = a
    · subst ha; simp [hk]
    · simp [ha]
  · rw [if_neg (fun h => hk (hiff.mp h))]
    by_cases ha : key = a
    · subst ha; simp [hk]
    · simp [ha]

open Classical in
/-- **Cancelling takes away exactly the named keys that are still pending.** -/
theorem cancelReservations_entry (keys : List ActionKey) (a : ActionKey) :
    (ledger.cancelReservations keys).entry a =
      if a ∈ keys ∧ ledger.isReserved a then none else ledger.entry a := by
  induction keys generalizing ledger with
  | nil => simp [cancelReservations]
  | cons key keys ih =>
    have hres : (ledger.cancelReservations [key]).isReserved a ↔
        ledger.isReserved a ∧ key ≠ a := by
      simp only [isReserved, cancelReservations_single]
      by_cases ha : key = a <;> simp [ha]
    rw [cancelReservations_step, ih, cancelReservations_single, hres]
    by_cases ha : key = a <;> by_cases hr : ledger.isReserved a <;> by_cases hm : a ∈ keys <;>
      simp [ha, hr, hm, Ne.symm]

/-- Cancelling keeps the limits. -/
@[simp] theorem cancelReservations_limits (keys : List ActionKey) :
    (ledger.cancelReservations keys).limits = ledger.limits := by
  induction keys generalizing ledger with
  | nil => rfl
  | cons key keys ih =>
    rw [cancelReservations_step, ih]
    simp only [cancelReservations, List.foldl_cons, List.foldl_nil]
    split_ifs
    · exact remove_limits key
    · rfl

/-! ### Results -/

section finish
variable [BEq P] [Payload P]

/-- **Inversion of `finish`.** -/
inductive FinishStep (ledger : OutcomeLedger P) (sequence owner : ℕ) (key : ActionKey)
    (atTick : ℕ) (payload : P) : OutcomeLedger P → ℕ → Except OutcomeError ℕ → Prop
  | refused (error : OutcomeError) (hcapacity : error = .capacity →
        ledger.limits.maximumPayloadBytes < Payload.retainedBytes payload)
      (hunknown : error = .unknown → ∀ terminal, ledger.entry key ≠ some (owner, terminal))
      (hexhausted : error = .sequenceExhausted → wordMax 64 < sequence + 1) (hv : error ≠ .invalid)
      (hconflict : error = .conflict → ∃ old, ledger.entry key = some (owner, some old)) :
      FinishStep ledger sequence owner key atTick payload ledger sequence (.error error)
  | repeated (old : TerminalOutcome P) (h : ledger.entry key = some (owner, some old)) :
      FinishStep ledger sequence owner key atTick payload ledger sequence (.ok old.sequence)
  | recorded (ledger' : OutcomeLedger P) (h : ledger.entry key = some (owner, none))
      (hs : sequence + 1 ≤ wordMax 64) (hl : ledger'.limits = ledger.limits)
      (he : ∀ a, ledger'.entry a =
        if key = a then some (owner, some ⟨sequence, key, atTick, payload⟩) else ledger.entry a) :
      FinishStep ledger sequence owner key atTick payload ledger' (sequence + 1) (.ok sequence)

/-- Every `finish` is one of these steps. -/
theorem finish_step {sequence owner atTick next : ℕ} {key : ActionKey} {payload : P}
    {answer : Except OutcomeError ℕ}
    (h : ledger.finish sequence owner key atTick payload = (ledger', next, answer)) :
    FinishStep ledger sequence owner key atTick payload ledger' next answer := by
  unfold finish at h
  split at h
  · cases h
    exact .refused _ (fun _ => by assumption) (by simp) (by simp) (by simp) (by simp)
  split at h
  · rename_i hr
    cases h
    refine .refused _ (by simp) (fun _ terminal he => ?_) (by simp) (by simp) (by simp)
    simp [entry, hr] at he
  rename_i record hr
  split at h
  · rename_i hne
    cases h
    refine .refused _ (by simp) (fun _ terminal he => hne ?_) (by simp) (by simp) (by simp)
    obtain ⟨record', hr', ho, -⟩ := entry_eq_some.mp he
    rw [hr] at hr'
    cases hr'
    exact ho
  rename_i howner
  have howner : record.owner = owner := not_not.mp howner
  split at h
  · rename_i old ht
    have hentry := entry_eq_some.mpr ⟨record, hr, howner, ht⟩
    split at h
    · cases h
      exact .repeated old hentry
    · cases h
      exact .refused _ (by simp) (by simp) (by simp) (by simp) (fun _ => ⟨old, hentry⟩)
  · rename_i ht
    have hentry := entry_eq_some.mpr ⟨record, hr, howner, ht⟩
    split at h
    · rename_i hnone
      cases h
      refine .refused _ (by simp) (by simp) (fun _ => ?_) (by simp) (by simp)
      by_contra hle
      exact absurd (hnone.symm.trans (checkedAdd_eq_some.mpr ⟨rfl, not_lt.mp hle⟩)) (by simp)
    · rename_i next' hnext
      obtain ⟨rfl, hle⟩ := checkedAdd_eq_some.mp hnext
      cases h
      refine .recorded _ hentry hle rfl fun a => ?_
      simp only [entry, lookup_insert]
      split_ifs with ha
      · simp [howner]
      · rfl

end finish

@[simp] theorem closeDelivery_limits (owner connection : ℕ) :
    (ledger.closeDelivery owner connection).limits = ledger.limits := rfl

/-- The end of a delivery changes no result. -/
@[simp] theorem closeDelivery_entry (owner connection : ℕ) (key : ActionKey) :
    (ledger.closeDelivery owner connection).entry key = ledger.entry key := by
  simp only [entry, closeDelivery, ExtTreeMap.getElem?_map, Option.map_map]
  congr 1
  funext record
  simp only [Function.comp]
  split_ifs <;> rfl

/-- A report changes no result. -/
theorem markReported_entry (owner : ℕ) (key a : ActionKey) :
    (ledger.markReported owner key).entry a = ledger.entry a ∧
      (ledger.markReported owner key).limits = ledger.limits := by
  unfold markReported
  split
  · exact ⟨rfl, rfl⟩
  · rename_i record hr
    have hmarked : (ledger.records.insert key { record with reported := true })[a]?.map
        (fun record => (record.owner, record.terminal)) = ledger.entry a := by
      rw [lookup_insert]
      split_ifs with ha
      · rw [entry, ← ha, hr]; rfl
      · rfl
    cases hterminal : record.terminal with
    | none => exact ⟨by rw [← hmarked, hterminal]; rfl, rfl⟩
    | some terminal => exact ⟨by rw [← hmarked, hterminal]; simp [entry], by simp⟩

/-- Nor do the reports of a list of keys. -/
theorem reported_entry (a : ActionKey) :
    (ledger.reported owner keys).1.entry a = ledger.entry a ∧
      (ledger.reported owner keys).1.limits = ledger.limits := by
  have hfold : ∀ (keys : List ActionKey) (l : OutcomeLedger P),
      (keys.foldl (fun l key => l.markReported owner key) l).entry a = l.entry a ∧
        (keys.foldl (fun l key => l.markReported owner key) l).limits = l.limits := by
    intro keys
    induction keys with
    | nil => exact fun l => ⟨rfl, rfl⟩
    | cons key keys ih =>
      intro l
      obtain ⟨he, hl⟩ := @markReported_entry _ l owner key a
      rw [List.foldl_cons]
      exact ⟨(ih _).1.trans he, (ih _).2.trans hl⟩
  unfold reported
  split_ifs
  · exact ⟨rfl, rfl⟩
  · exact hfold keys ledger

/-- Removing a list of records drops exactly their entries. -/
theorem foldl_remove_entry (keys : List ActionKey) (a : ActionKey) :
    (keys.foldl remove ledger).entry a = (if a ∈ keys then none else ledger.entry a) ∧
      (keys.foldl remove ledger).limits = ledger.limits := by
  induction keys generalizing ledger with
  | nil => simp
  | cons key keys ih =>
    obtain ⟨he, hl⟩ := @ih (ledger.remove key)
    refine ⟨?_, hl.trans (remove_limits key)⟩
    rw [List.foldl_cons, he, remove_entry]
    by_cases ha : key = a <;> by_cases hm : a ∈ keys <;> simp [ha, hm, Ne.symm]

@[simp] theorem expire_limits (now : ℕ) : (ledger.expire now).limits = ledger.limits :=
  (foldl_remove_entry _ ⟨0, 0, 0, 0⟩).2

/-- **Only a completed entry whose retention is over expires.** -/
theorem expire_entry (now : ℕ) (a : ActionKey) :
    (ledger.expire now).entry a = ledger.entry a ∨
      (ledger.expire now).entry a = none ∧ ∃ owner terminal,
        ledger.entry a = some (owner, some terminal) ∧
          ledger.limits.retentionTicks ≤ now - terminal.atTick := by
  rw [expire, (foldl_remove_entry _ a).1]
  split_ifs with hm
  · obtain ⟨record, hr, hx⟩ : ∃ record, ledger.records[a]? = some record ∧
        ledger.isExpired now record = true := by
      simpa [ExtTreeMap.mem_toList_iff_getElem?_eq_some] using hm
    simp only [isExpired, Bool.and_eq_true, Option.any_eq_true, decide_eq_true_eq] at hx
    obtain ⟨-, terminal, ht, hle⟩ := hx
    exact .inr ⟨rfl, record.owner, terminal, entry_eq_some.mpr ⟨record, hr, rfl, ht⟩, hle⟩
  · exact .inl rfl

end Net.OutcomeLedger
