import Discordium.Lib.Totals
import Discordium.Net.Outcomes.Records

/-!
# Net — Outcomes — Bookkeeping

The four tables of a ledger tell one story.  `Booked` says which: the owners table counts the
records of each owner, the delivery sets hold exactly the results that wait for their delivery, and
the limits hold.  Every operation keeps it, and with it no look-up the code unwraps fails and no
count falls below zero.
-/

namespace Net.OutcomeLedger
open Lib
open Std (ExtTreeMap ExtTreeSet)

variable {P : Type} {ledger : OutcomeLedger P}

/-! ### The tables -/

/-- The number of records of an owner. -/
def count (ledger : OutcomeLedger P) (owner : ℕ) : ℕ :=
  ((values ledger.records).filter (·.owner = owner)).length

/-- A record whose result is to be delivered: terminal, unreported and open. -/
def Awaits (record : OutcomeRecord P) (sequence : ℕ) : Prop :=
  (∃ terminal, record.terminal = some terminal ∧ terminal.sequence = sequence) ∧
    record.reported = false ∧ record.deliveryClosed = false

structure Booked [Payload P] (ledger : OutcomeLedger P) : Prop where
  owners_eq : ∀ owner, ledger.owners[owner]? =
    if ledger.count owner = 0 then none else some (ledger.count owner)
  mem_delivery : ∀ stream queued, queued ∈ members ledger.delivery stream ↔
    ∃ record, ledger.records[queued.key]? = some record ∧ record.owner = stream.owner ∧
      queued.key.connection = stream.connection ∧ Awaits record queued.sequence
  /-- No stream is kept without results. -/
  trim : Trim ledger.delivery
  records_le : ledger.records.size ≤ ledger.limits.records
  count_le : ∀ owner, ledger.count owner ≤ ledger.limits.recordsPerOwner
  bytes_le : ledger.retainedBytes ≤ ledger.limits.retainedBytes
  payload_le : ∀ (key : ActionKey) record terminal, ledger.records[key]? = some record →
    record.terminal = some terminal →
    terminal.key = key ∧ Payload.retainedBytes terminal.payload ≤ ledger.limits.maximumPayloadBytes
  /-- Only a result is reported. -/
  reported_terminal : ∀ (key : ActionKey) record, ledger.records[key]? = some record →
    record.terminal = none → record.reported = false
  charge_pos : 0 < ledger.charge
  panicked_eq : ledger.panicked = false

theorem count_eq_total (owner : ℕ) :
    ledger.count owner = total (fun record => if record.owner = owner then 1
      else 0) ledger.records := by
  simp [count, length_filter_values]

theorem owned_eq [Payload P] (h : ledger.Booked) (owner : ℕ) :
    ledger.owned owner = ledger.count owner := by
  rw [owned, h.owners_eq]
  split_ifs with hzero
  · exact hzero.symm
  · rfl

/-! ### Removal -/

variable {key : ActionKey} {record : OutcomeRecord P} {owner : ℕ}

/-- **Spec of `remove`** for a key that is held. -/
theorem remove_eq (hr : ledger.records[key]? = some record) :
    ledger.remove key =
      { ledger with
        records := ledger.records.erase key
        owners := release ledger.owners record.owner
        delivery := record.terminal.elim ledger.delivery fun terminal =>
          removeMember ledger.delivery ⟨record.owner, key.connection⟩ ⟨terminal.sequence, key⟩
        panicked := ledger.panicked || ledger.owners[record.owner]?.all (· = 0) } := by
  rw [remove, hr]
  dsimp only
  cases record.terminal <;> rfl

theorem remove_of_none (hr : ledger.records[key]? = none) : ledger.remove key = ledger := by
  rw [remove, hr]

/-- A record leaves the count of its owner. -/
theorem count_remove (hr : ledger.records[key]? = some record) (owner : ℕ) :
    ledger.count owner =
      (if record.owner = owner then 1 else 0) + (ledger.remove key).count owner := by
  rw [count_eq_total, count_eq_total, (remove_records key).1]
  exact total_erase _ hr

theorem lookup_release {owners : ExtTreeMap ℕ ℕ} {n : ℕ} (h : owners[owner]? = some (n + 1))
    (other : ℕ) :
    (release owners owner)[other]? =
      if owner = other then (if n = 0 then none else some n) else owners[other]? := by
  simp only [release, h, Nat.add_sub_cancel]
  split_ifs with hn ho ho
  · rw [lookup_erase, if_pos ho]
  · rw [lookup_erase, if_neg ho]
  · rw [lookup_insert, if_pos ho]
  · rw [lookup_insert, if_neg ho]

/-- What a delivery set holds once the record of a key is gone. -/
theorem mem_delivery_remove [Payload P] (h : ledger.Booked)
    (hr : ledger.records[key]? = some record) (stream : DeliveryStream) (queued : Queued) :
    queued ∈ members (ledger.remove key).delivery stream ↔
      queued ∈ members ledger.delivery stream ∧ queued.key ≠ key := by
  have hheld : queued ∈ members ledger.delivery stream → queued.key = key →
      ∃ terminal, record.terminal = some terminal ∧ stream = ⟨record.owner, key.connection⟩ ∧
        queued = ⟨terminal.sequence, key⟩ := by
    rintro hmem rfl
    obtain ⟨record', hr', howner, hconnection, ⟨terminal, ht, hs⟩, -⟩ :=
      (h.mem_delivery _ _).mp hmem
    cases hr.symm.trans hr'
    refine ⟨terminal, ht, ?_, ?_⟩
    · rw [howner, hconnection]
    · rw [hs]
  rw [remove_eq hr]
  cases ht : record.terminal with
  | none =>
    refine (and_iff_left_of_imp fun hmem hk => ?_).symm
    obtain ⟨terminal, ht', -⟩ := hheld hmem hk
    rw [ht] at ht'
    cases ht'
  | some terminal =>
    rw [Option.elim_some, mem_removeMember]
    refine and_congr_right fun hmem => not_congr ⟨fun hk => hk.2 ▸ rfl, fun hk => ?_⟩
    obtain ⟨terminal', ht', hstream, hqueued⟩ := hheld hmem hk
    rw [ht] at ht'
    cases ht'
    exact ⟨hstream.symm, hqueued⟩

theorem Booked.remove [Payload P] (h : ledger.Booked) (key : ActionKey) :
    (ledger.remove key).Booked := by
  cases hr : ledger.records[key]? with
  | none => rwa [remove_of_none hr]
  | some record =>
    obtain ⟨hrecords, hlimits⟩ := @remove_records P ledger key
    obtain ⟨n, hn⟩ : ∃ n, ledger.count record.owner = n + 1 :=
      ⟨_, by rw [count_remove hr, if_pos rfl, Nat.add_comm]⟩
    have howners : ledger.owners[record.owner]? = some (n + 1) := by
      rw [h.owners_eq, hn, if_neg (Nat.succ_ne_zero n)]
    have hcharge : (ledger.remove key).charge = ledger.charge := by rw [remove_eq hr]
    have hsize : (ledger.remove key).records.size + 1 = ledger.records.size := by
      rw [hrecords]
      exact size_erase_add_one hr
    have hsub : ∀ (k : ActionKey) r, (ledger.remove key).records[k]? = some r →
        ledger.records[k]? = some r ∧ key ≠ k := by
      intro k r hk
      rw [hrecords, lookup_erase] at hk
      split_ifs at hk with hne
      exact ⟨hk, hne⟩
    refine ⟨fun owner => ?_, fun stream queued => ?_, ?_, ?_, fun owner => ?_, ?_, ?_, ?_, ?_, ?_⟩
    · have hlookup : (ledger.remove key).owners[owner]? =
          if record.owner = owner then (if n = 0 then none else some n)
            else ledger.owners[owner]? := by
        rw [remove_eq hr]
        exact lookup_release howners owner
      have hcount := count_remove hr owner
      by_cases ho : record.owner = owner
      · rw [if_pos ho, ← ho, hn] at hcount
        rw [hlookup, if_pos ho, ← ho, show (ledger.remove key).count record.owner = n by omega]
      · rw [if_neg ho, Nat.zero_add] at hcount
        rw [hlookup, if_neg ho, h.owners_eq, hcount]
    · rw [mem_delivery_remove h hr, h.mem_delivery, hrecords, lookup_erase]
      by_cases hk : key = queued.key
      · simp [hk]
      · rw [if_neg hk, and_iff_left (Ne.symm hk)]
    · rw [remove_eq hr]
      cases record.terminal with
      | none => exact h.trim
      | some terminal => exact h.trim.removeMember _ _
    · rw [hlimits]
      have := h.records_le
      omega
    · rw [hlimits]
      have := count_remove hr owner
      have := h.count_le owner
      omega
    · rw [retainedBytes, hcharge, hlimits]
      refine le_trans (Nat.mul_le_mul_right _ ?_) h.bytes_le
      omega
    · intro k r terminal hk ht
      rw [hlimits]
      exact h.payload_le k r terminal (hsub k r hk).1 ht
    · intro k r hk ht
      exact h.reported_terminal k r (hsub k r hk).1 ht
    · rw [hcharge]
      exact h.charge_pos
    · rw [remove_eq hr]
      simp [h.panicked_eq, howners]

theorem Booked.cancelReservations [Payload P] (h : ledger.Booked) (keys : List ActionKey) :
    (ledger.cancelReservations keys).Booked := by
  unfold OutcomeLedger.cancelReservations
  induction keys generalizing ledger with
  | nil => exact h
  | cons key keys ih =>
    rw [List.foldl_cons]
    split_ifs
    · exact ih (h.remove key)
    · exact ih h

theorem Booked.expire [Payload P] (h : ledger.Booked) (now : ℕ) : (ledger.expire now).Booked := by
  have hremove : ∀ (keys : List ActionKey) (ledger : OutcomeLedger P), ledger.Booked →
      (keys.foldl OutcomeLedger.remove ledger).Booked := by
    intro keys
    induction keys with
    | nil => exact fun _ h => h
    | cons key keys ih => exact fun _ h => ih _ (h.remove key)
  exact hremove _ ledger h

/-! ### Marks and results -/

/-- The records of `ledger'` have the keys and owners of those of `ledger`, and so do its counts. -/
structure SameOwners (ledger ledger' : OutcomeLedger P) : Prop where
  owner_eq : ∀ key : ActionKey, ledger'.records[key]?.map (·.owner) =
    ledger.records[key]?.map (·.owner)
  owners_eq : ledger'.owners = ledger.owners
  limits_eq : ledger'.limits = ledger.limits
  charge_eq : ledger'.charge = ledger.charge
  panicked_eq : ledger'.panicked = ledger.panicked

variable {ledger' : OutcomeLedger P}

theorem SameOwners.count (h : SameOwners ledger ledger') (owner : ℕ) :
    ledger'.count owner = ledger.count owner := by
  have hfactor : ∀ records : Option (OutcomeRecord P),
      (records.map fun record => if record.owner = owner then 1 else 0) =
        (records.map (·.owner)).map fun o => if o = owner then 1 else 0 := by
    intro records
    rw [Option.map_map]
    rfl
  rw [count_eq_total, count_eq_total]
  exact total_congr fun key => by rw [hfactor, hfactor, h.owner_eq key]

theorem SameOwners.size (h : SameOwners ledger ledger') :
    ledger'.records.size = ledger.records.size := by
  have hfactor : ∀ records : Option (OutcomeRecord P),
      (records.map fun _ => 1) = (records.map (·.owner)).map fun _ => 1 := by
    intro records
    rw [Option.map_map]
    rfl
  rw [← total_one, ← total_one]
  exact total_congr fun key => by rw [hfactor, hfactor, h.owner_eq key]

/-- Where no key and no owner changes, the delivery sets and the results are left to check. -/
theorem Booked.of_sameOwners [Payload P] (h : ledger.Booked) (hsame : SameOwners ledger ledger')
    (hmem : ∀ stream queued, queued ∈ members ledger'.delivery stream ↔
      ∃ record, ledger'.records[queued.key]? = some record ∧ record.owner = stream.owner ∧
        queued.key.connection = stream.connection ∧ Awaits record queued.sequence)
    (htrim : Trim ledger'.delivery)
    (hpayload : ∀ (key : ActionKey) record terminal, ledger'.records[key]? = some record →
      record.terminal = some terminal →
      terminal.key = key ∧ Payload.retainedBytes terminal.payload ≤
        ledger.limits.maximumPayloadBytes)
    (hreported : ∀ (key : ActionKey) record, ledger'.records[key]? = some record →
      record.terminal = none → record.reported = false) : ledger'.Booked where
  owners_eq owner := by rw [hsame.owners_eq, h.owners_eq, hsame.count]
  mem_delivery := hmem
  trim := htrim
  records_le := by rw [hsame.size, hsame.limits_eq]; exact h.records_le
  count_le owner := by rw [hsame.count, hsame.limits_eq]; exact h.count_le owner
  bytes_le := by rw [retainedBytes, hsame.size, hsame.charge_eq, hsame.limits_eq]; exact h.bytes_le
  payload_le key record terminal hr ht := by
    rw [hsame.limits_eq]; exact hpayload key record terminal hr ht
  reported_terminal := hreported
  charge_pos := by rw [hsame.charge_eq]; exact h.charge_pos
  panicked_eq := by rw [hsame.panicked_eq, h.panicked_eq]

section
variable (owner connection : ℕ) (key : ActionKey)

/-- What `close_delivery` makes of a record. -/
def closed (record : OutcomeRecord P) : OutcomeRecord P :=
  if record.owner = owner ∧ key.connection = connection then { record with deliveryClosed := true }
  else record

theorem lookup_closeDelivery :
    (ledger.closeDelivery owner connection).records[key]? =
      ledger.records[key]?.map (closed owner connection key) := by
  rw [closeDelivery, ExtTreeMap.getElem?_map]
  rfl

theorem closed_owner (record : OutcomeRecord P) :
    (closed owner connection key record).owner = record.owner := by
  unfold closed
  split_ifs <;> rfl

theorem closed_terminal (record : OutcomeRecord P) :
    (closed owner connection key record).terminal = record.terminal := by
  unfold closed
  split_ifs <;> rfl

/-- A closed record waits exactly if it waited before and is not one of the stream. -/
theorem awaits_closed (record : OutcomeRecord P) (sequence : ℕ) :
    Awaits (closed owner connection key record) sequence ↔
      Awaits record sequence ∧ ¬(record.owner = owner ∧ key.connection = connection) := by
  unfold closed Awaits
  split_ifs with h
  · simp [h]
  · simp [h]

end

theorem members_closeDelivery (owner connection : ℕ) (stream : DeliveryStream) (queued : Queued) :
    queued ∈ members (ledger.closeDelivery owner connection).delivery stream ↔
      queued ∈ members ledger.delivery stream ∧
        ¬(stream.owner = owner ∧ stream.connection = connection) := by
  rw [closeDelivery, members, lookup_erase]
  split_ifs with h
  · simp [← h]
  · refine (and_iff_left fun hs => h ?_).symm
    rw [← hs.1, ← hs.2]

theorem Booked.closeDelivery [Payload P] (h : ledger.Booked) (owner connection : ℕ) :
    (ledger.closeDelivery owner connection).Booked := by
  have hlookup : ∀ (key : ActionKey) record',
      (ledger.closeDelivery owner connection).records[key]? =
      some record' → ∃ record, ledger.records[key]? = some record ∧
        closed owner connection key record = record' := by
    intro key record' hr
    rw [lookup_closeDelivery] at hr
    exact Option.map_eq_some_iff.mp hr
  refine h.of_sameOwners ⟨fun key => ?_, rfl, rfl, rfl, rfl⟩ (fun stream queued => ?_) ?_ ?_ ?_
  · rw [lookup_closeDelivery, Option.map_map]
    congr 1
    funext record
    exact closed_owner owner connection key record
  · rw [members_closeDelivery, h.mem_delivery]
    constructor
    · rintro ⟨⟨record, hr, howner, hconnection, hawaits⟩, hother⟩
      refine ⟨closed owner connection queued.key record, ?_, ?_, hconnection, ?_⟩
      · rw [lookup_closeDelivery, hr, Option.map_some]
      · rw [closed_owner, howner]
      · rw [awaits_closed, howner, hconnection]
        exact ⟨hawaits, hother⟩
    · rintro ⟨record', hr', howner, hconnection, hawaits⟩
      obtain ⟨record, hr, rfl⟩ := hlookup _ _ hr'
      rw [closed_owner] at howner
      rw [awaits_closed, howner, hconnection] at hawaits
      exact ⟨⟨record, hr, howner, hconnection, hawaits.1⟩, hawaits.2⟩
  · intro stream filed hfiled
    rw [OutcomeLedger.closeDelivery, lookup_erase] at hfiled
    split_ifs at hfiled
    exact h.trim stream filed hfiled
  · intro key record' terminal hr' ht
    obtain ⟨record, hr, rfl⟩ := hlookup _ _ hr'
    rw [closed_terminal] at ht
    exact h.payload_le key record terminal hr ht
  · intro key record' hr' ht
    obtain ⟨record, hr, rfl⟩ := hlookup _ _ hr'
    rw [closed_terminal] at ht
    have hreported := h.reported_terminal key record hr ht
    unfold closed
    split_ifs <;> exact hreported

variable {terminal : TerminalOutcome P} {keys : List ActionKey}

/-- **Spec of one reported key**, for a record with a result. -/
theorem markReported_eq (hr : ledger.records[key]? = some record)
    (ht : record.terminal = some terminal) :
    ledger.markReported owner key =
      { ledger with
        records := ledger.records.insert key { record with reported := true }
        delivery := removeMember ledger.delivery ⟨owner, key.connection⟩
          ⟨terminal.sequence, key⟩ } := by
  rw [markReported, hr]
  dsimp only
  rw [ht]
  rfl

theorem Booked.markReported [Payload P] (h : ledger.Booked)
    (he : ledger.entry key = some (owner, some terminal)) :
    (ledger.markReported owner key).Booked := by
  obtain ⟨record, hr, howner, ht⟩ := entry_eq_some.mp he
  rw [markReported_eq hr ht]
  have hlookup : ∀ (k : ActionKey) record',
      (ledger.records.insert key { record with reported := true })[k]? = some record' →
        key = k ∧ record' = { record with reported := true } ∨
          key ≠ k ∧ ledger.records[k]? = some record' := by
    intro k record' hk
    rw [lookup_insert] at hk
    split_ifs at hk with hne
    · exact .inl ⟨hne, (Option.some.inj hk).symm⟩
    · exact .inr ⟨hne, hk⟩
  refine h.of_sameOwners ⟨fun k => ?_, rfl, rfl, rfl, rfl⟩ (fun stream queued => ?_)
    (h.trim.removeMember _ _) ?_ ?_
  · rw [lookup_insert]
    split_ifs with hk
    · rw [← hk, hr]
      rfl
    · rfl
  · dsimp only
    rw [mem_removeMember, h.mem_delivery, lookup_insert]
    by_cases hk : key = queued.key
    · -- the record waits no more, and what was queued for it is gone
      rw [if_pos hk]
      constructor
      · rintro ⟨⟨record₁, hr₁, ho, hc, ⟨terminal₁, ht₁, hs⟩, -⟩, hnot⟩
        obtain rfl : record = record₁ := Option.some.inj (by rw [← hr, ← hr₁, hk])
        rw [ht] at ht₁
        cases ht₁
        refine absurd ⟨?_, ?_⟩ hnot
        · rw [← howner, ho, hk, hc]
        · rw [hs, hk]
      · rintro ⟨record', hr', -, -, -, hunreported, -⟩
        cases hr'
        cases hunreported
    · rw [if_neg hk, and_iff_left]
      rintro ⟨-, rfl⟩
      exact hk rfl
  · intro k record' terminal' hk ht'
    rcases hlookup k record' hk with ⟨rfl, rfl⟩ | ⟨-, hk⟩
    · exact h.payload_le key record terminal' hr ht'
    · exact h.payload_le k record' terminal' hk ht'
  · intro k record' hk ht'
    rcases hlookup k record' hk with ⟨rfl, rfl⟩ | ⟨-, hk⟩
    · rw [ht] at ht'
      cases ht'
    · exact h.reported_terminal k record' hk ht'

theorem Booked.reported [Payload P] (h : ledger.Booked) (owner : ℕ) (keys : List ActionKey) :
    (ledger.reported owner keys).1.Booked := by
  unfold OutcomeLedger.reported
  split_ifs with hunknown
  · exact h
  · -- every key has a result of the owner, and marking one leaves the others theirs
    have hheld : ∀ key ∈ keys, ∃ terminal, ledger.entry key = some (owner, some terminal) := by
      intro key hkey
      simp only [List.any_eq_true, not_exists, not_and] at hunknown
      have hkey := hunknown key hkey
      rw [entry]
      cases hr : ledger.records[key]? with
      | none => simp [hr] at hkey
      | some record =>
        cases ht : record.terminal with
        | none => simp [hr, ht] at hkey
        | some terminal =>
          simp only [hr, ht, Option.all_some, Option.isNone_some, Bool.or_false, decide_eq_true_eq,
            not_not] at hkey
          exact ⟨terminal, by simp [hkey, ht]⟩
    clear hunknown
    induction keys generalizing ledger with
    | nil => exact h
    | cons key keys ih =>
      obtain ⟨terminal, he⟩ := hheld key List.mem_cons_self
      refine ih (h.markReported he) fun other hother => ?_
      obtain ⟨terminal', he'⟩ := hheld other (List.mem_cons_of_mem _ hother)
      exact ⟨terminal', by rw [(markReported_entry owner key other).1, he']⟩

/-- A result entered for a pending record. -/
theorem Booked.recorded [Payload P] (h : ledger.Booked) {sequence atTick : ℕ}
    {payload : P} (hr : ledger.records[key]? = some record)
    (howner : record.owner = owner) (ht : record.terminal = none)
    (hfit : Payload.retainedBytes payload ≤ ledger.limits.maximumPayloadBytes) :
    Booked { ledger with
      records := ledger.records.insert key { record with terminal := some ⟨sequence, key, atTick,
        payload⟩ }
      delivery := if record.deliveryClosed then ledger.delivery
        else addMember ledger.delivery ⟨owner, key.connection⟩ ⟨sequence, key⟩ } := by
  have hunreported := h.reported_terminal key record hr ht
  refine h.of_sameOwners ⟨fun k => ?_, rfl, rfl, rfl, rfl⟩ (fun stream queued => ?_) ?_ ?_ ?_
  · rw [lookup_insert]
    split_ifs with hk
    · rw [← hk, hr]
      rfl
    · rfl
  · have hmem : queued ∈ members (if record.deliveryClosed then ledger.delivery
          else addMember ledger.delivery ⟨owner, key.connection⟩ ⟨sequence, key⟩) stream ↔
        (record.deliveryClosed = false ∧ (⟨owner, key.connection⟩ : DeliveryStream) = stream ∧
          queued = ⟨sequence, key⟩) ∨ queued ∈ members ledger.delivery stream := by
      cases record.deliveryClosed with
      | false => simp [mem_addMember]
      | true => simp
    dsimp only
    rw [hmem, h.mem_delivery, lookup_insert]
    by_cases hk : key = queued.key
    · -- the pending record did not wait; it does now, unless its delivery is closed
      rw [if_pos hk]
      constructor
      · rintro (⟨hopen, rfl, rfl⟩ | ⟨record₁, hr₁, -, -, ⟨terminal, ht₁, -⟩, -⟩)
        · exact ⟨_, rfl, howner, rfl, ⟨_, rfl, rfl⟩, hunreported, hopen⟩
        · obtain rfl : record = record₁ := Option.some.inj (by rw [← hr, ← hr₁, hk])
          rw [ht] at ht₁
          cases ht₁
      · rintro ⟨record', hr', ho, hc, ⟨terminal, ht', hs⟩, -, hopen⟩
        cases hr'
        cases ht'
        refine .inl ⟨hopen, congrArg₂ DeliveryStream.mk (howner.symm.trans ho) ?_,
          congrArg₂ Queued.mk hs.symm hk.symm⟩
        rw [hk, hc]
    · rw [if_neg hk, or_iff_right]
      rintro ⟨-, -, rfl⟩
      exact hk rfl
  · dsimp only
    split_ifs
    · exact h.trim
    · exact h.trim.addMember _ _
  · intro k record' terminal hk ht'
    dsimp only at hk
    rw [lookup_insert] at hk
    split_ifs at hk with hne
    · cases hk
      cases ht'
      exact ⟨hne, hfit⟩
    · exact h.payload_le k record' terminal hk ht'
  · intro k record' hk ht'
    dsimp only at hk
    rw [lookup_insert] at hk
    split_ifs at hk with hne
    · cases hk
      cases ht'
    · exact h.reported_terminal k record' hk ht'

theorem Booked.finish [BEq P] [Payload P] (h : ledger.Booked) (sequence owner : ℕ) (key : ActionKey)
    (atTick : ℕ) (payload : P) : (ledger.finish sequence owner key atTick payload).1.Booked := by
  unfold OutcomeLedger.finish
  split
  · exact h
  rename_i hfit
  split
  · exact h
  rename_i record hr
  split
  · exact h
  rename_i howner
  split
  · split <;> exact h
  rename_i ht
  split
  · exact h
  · exact h.recorded hr (not_not.mp howner) ht (not_lt.mp hfit)

/-! ### Reservations -/

theorem Booked.new [Payload P] {recordBytes : ℕ} {limits : OutcomeLimits}
    (h : OutcomeLedger.new recordBytes limits = .ok ledger) : ledger.Booked := by
  unfold OutcomeLedger.new at h
  split at h
  · cases h
  rename_i charge hcharge
  split_ifs at h
  cases h
  obtain ⟨bytes, hbytes, hsum⟩ := Option.bind_eq_some_iff.mp hcharge
  have hpos : 0 < charge := by
    obtain ⟨rfl, -⟩ := checkedAdd_eq_some.mp hbytes
    obtain ⟨rfl, -⟩ := checkedAdd_eq_some.mp hsum
    omega
  have hcount : ∀ owner, count (⟨limits, ∅, ∅, ∅, charge, false⟩ : OutcomeLedger P) owner = 0 := by
    intro owner
    rw [count_eq_total, total_empty]
  refine ⟨fun owner => ?_, fun stream queued => ?_, trim_empty, ?_, fun owner => ?_, ?_, ?_, ?_,
    hpos, rfl⟩
  · rw [hcount, if_pos rfl, ExtTreeMap.getElem?_empty]
  · simp [members]
  · simp
  · rw [hcount]
    exact Nat.zero_le _
  · simp [retainedBytes]
  · simp
  · simp

/-- A request of new valid keys. -/
structure Fresh (ledger : OutcomeLedger P) (keys : List ActionKey) : Prop where
  length_pos : 1 ≤ keys.length
  length_le : keys.length ≤ 8
  nodup : keys.Nodup
  valid : ∀ key ∈ keys, validKey key = true
  fresh : ∀ key ∈ keys, ledger.records[key]? = none

theorem fresh_fresh (h : ∀ key ∈ keys, ledger.records[key]? = none) :
    ledger.fresh keys = keys :=
  List.filter_eq_self.mpr fun key hkey => by rw [contains_eq_isSome, h key hkey]; rfl

/-- The room a request of `n` records asks for. -/
def HasRoom (ledger : OutcomeLedger P) (owner n : ℕ) : Prop :=
  ledger.records.size + n ≤ ledger.limits.records ∧
    ledger.count owner + n ≤ ledger.limits.recordsPerOwner ∧
    (ledger.records.size + n) * ledger.charge ≤ ledger.limits.retainedBytes

theorem le_availableFor_iff [Payload P] (h : ledger.Booked) (owner n : ℕ) :
    n ≤ ledger.availableFor owner ↔ ledger.HasRoom owner n := by
  have hrecords := h.records_le
  have hcount := h.count_le owner
  have hbytes := h.bytes_le
  rw [availableFor, owned_eq h, le_min_iff, le_min_iff, Nat.le_div_iff_mul_le h.charge_pos, HasRoom,
    Nat.add_mul, and_assoc]
  unfold retainedBytes at hbytes ⊢
  omega

/-- The limits are machine words. -/
structure Words (limits : OutcomeLimits) : Prop where
  records_le : limits.records ≤ wordMax 64
  retainedBytes_le : limits.retainedBytes ≤ wordMax 64

/-- New records of an owner, one under each of the keys. -/
def reserved (ledger : OutcomeLedger P) (owner : ℕ) (keys : List ActionKey) : OutcomeLedger P :=
  { ledger with
    records := keys.foldl (fun records key => records.insert key (reservation owner)) ledger.records
    owners := if ledger.owned owner + keys.length ≠ 0 then
      ledger.owners.insert owner (ledger.owned owner + keys.length) else ledger.owners }

theorem Booked.reserved [Payload P] (h : ledger.Booked)
    (hnodup : keys.Nodup) (hfresh : ∀ key ∈ keys, ledger.records[key]? = none)
    (hroom : ledger.HasRoom owner keys.length) : (ledger.reserved owner keys).Booked := by
  have hlookup : ∀ key : ActionKey, (ledger.reserved owner keys).records[key]? =
      if key ∈ keys then some (reservation owner) else ledger.records[key]? :=
    fun key => lookup_foldl_insert keys _ _ key
  have hcount : ∀ other, (ledger.reserved owner keys).count other =
      ledger.count other + if owner = other then keys.length else 0 := by
    intro other
    rw [count_eq_total, count_eq_total, OutcomeLedger.reserved,
      total_foldl_insert _ _ hnodup hfresh, Nat.add_comm, reservation]
    split_ifs <;> simp
  have hsize : (ledger.reserved owner keys).records.size = ledger.records.size + keys.length := by
    rw [← total_one, ← total_one, OutcomeLedger.reserved, total_foldl_insert _ _ hnodup hfresh,
      Nat.mul_one, Nat.add_comm]
  obtain ⟨hrecords, howner, hbytes⟩ := hroom
  refine ⟨fun other => ?_, fun stream queued => ?_, h.trim, ?_, fun other => ?_, ?_, ?_, ?_,
    h.charge_pos, h.panicked_eq⟩
  · rw [hcount, OutcomeLedger.reserved, owned_eq h]
    by_cases ho : owner = other
    · subst ho
      rw [if_pos rfl]
      by_cases hzero : ledger.count owner + keys.length = 0
      · rw [if_pos hzero, if_neg (not_not.mpr hzero), h.owners_eq, if_pos (by omega)]
      · rw [if_neg hzero, if_pos hzero, lookup_insert, if_pos rfl]
    · rw [if_neg ho, Nat.add_zero, ← h.owners_eq]
      split_ifs
      · rw [lookup_insert, if_neg ho]
      · rfl
  · rw [hlookup]
    refine (h.mem_delivery stream queued).trans ?_
    split_ifs with hk
    · rw [hfresh _ hk]
      constructor
      · rintro ⟨record, hr, -⟩
        cases hr
      · rintro ⟨record, hr, -, -, ⟨terminal, ht, -⟩, -⟩
        cases hr
        cases ht
    · rfl
  · rw [hsize]
    exact hrecords
  · rw [hcount]
    have := h.count_le other
    split_ifs with ho
    · rw [← ho]
      exact howner
    · exact this
  · rw [retainedBytes, hsize]
    exact hbytes
  · intro key record terminal hr ht
    rw [hlookup] at hr
    split_ifs at hr
    · cases hr
      cases ht
    · exact h.payload_le key record terminal hr ht
  · intro key record hr ht
    rw [hlookup] at hr
    split_ifs at hr
    · cases hr
      rfl
    · exact h.reported_terminal key record hr ht

/-- **Inversion of a granted reservation.** -/
theorem reserve_granted [Payload P] (h : ledger.Booked) {granted : List ActionKey}
    (hok : ledger.reserve owner keys = (ledger', .ok granted)) :
    granted = ledger.fresh keys ∧ keys.Nodup ∧ ledger.HasRoom owner granted.length ∧
      ledger' = ledger.reserved owner granted := by
  unfold reserve at hok
  split_ifs at hok with _ hkeys
  · simp at hok
  · simp at hok
  · simp at hok
  dsimp only at hok
  split at hok
  · simp at hok
  rename_i total htotal
  obtain ⟨rfl, -⟩ := checkedAdd_eq_some.mp htotal
  split at hok
  · simp at hok
  rename_i hlimits
  cases hok
  rw [owned_eq h] at hlimits
  simp only [not_or, not_lt] at hlimits hkeys
  exact ⟨rfl, not_not.mp hkeys.1, ⟨hlimits.1, hlimits.2.1, hlimits.2.2.2⟩, rfl⟩

theorem mem_fresh :
    key ∈ ledger.fresh keys ↔ key ∈ keys ∧ ledger.records[key]? = none := by
  rw [fresh, List.mem_filter, contains_eq_isSome]
  cases ledger.records[key]? <;> simp

theorem Booked.reserve [Payload P] (h : ledger.Booked) (owner : ℕ) (keys : List ActionKey) :
    (ledger.reserve owner keys).1.Booked := by
  cases hanswer : ledger.reserve owner keys with
  | mk ledger' answer =>
    cases answer with
    | error error => rwa [reserve_error hanswer]
    | ok granted =>
      obtain ⟨rfl, hnodup, hroom, rfl⟩ := reserve_granted h hanswer
      exact h.reserved (hnodup.filter _) (fun key hkey => (mem_fresh.mp hkey).2) hroom

/-- **`available_for` predicts `reserve`** of new valid keys for an owner. -/
theorem reserve_fresh_iff [Payload P] (h : ledger.Booked) (hwords : Words ledger.limits)
    (howner : owner ≠ 0) (hkeys : ledger.Fresh keys) :
    (∃ granted, (ledger.reserve owner keys).2 = .ok granted) ↔
      keys.length ≤ ledger.availableFor owner := by
  rw [le_availableFor_iff h]
  constructor
  · rintro ⟨granted, hgranted⟩
    obtain ⟨hfresh, -, hroom, -⟩ := reserve_granted h (Prod.ext rfl hgranted :
      ledger.reserve owner keys = ((ledger.reserve owner keys).1, .ok granted))
    rw [hfresh, fresh_fresh hkeys.fresh] at hroom
    exact hroom
  · rintro ⟨hrecords, hcount, hbytes⟩
    have hne : keys ≠ [] := List.ne_nil_of_length_pos hkeys.length_pos
    have hlength := hkeys.length_le
    have hforeign :
        keys.any (fun key => ledger.records[key]?.any fun record => record.owner ≠ owner) =
        false := by
      rw [List.any_eq_false]
      intro key hkey
      rw [hkeys.fresh key hkey]
      simp
    have hinvalid : keys.any (fun key => !validKey key) = false := by
      rw [List.any_eq_false]
      intro key hkey
      rw [hkeys.valid key hkey]
      simp
    have htotal : checkedAdd 64 ledger.records.size keys.length =
        some (ledger.records.size + keys.length) :=
      checkedAdd_eq_some.mpr ⟨rfl, hrecords.trans hwords.records_le⟩
    have hfits := hbytes.trans hwords.retainedBytes_le
    refine ⟨keys, ?_⟩
    unfold OutcomeLedger.reserve
    rw [if_neg (by simp only [howner, hne, false_or]; omega),
      if_neg (by simp [hkeys.nodup, hinvalid]), if_neg (by rw [hforeign]; exact Bool.false_ne_true)]
    simp only [fresh_fresh hkeys.fresh, htotal, owned_eq h]
    rw [if_neg (by omega)]

/-! ### Expiry and results -/

theorem foldl_remove_records (keys : List ActionKey) :
    (keys.foldl OutcomeLedger.remove ledger).records =
    keys.foldl ExtTreeMap.erase ledger.records := by
  induction keys generalizing ledger with
  | nil => rfl
  | cons key keys ih => rw [List.foldl_cons, ih, (remove_records key).1, List.foldl_cons]

/-- **A pending record, and a result that waits for its delivery, does not expire.** -/
theorem expire_keeps (hr : ledger.records[key]? = some record)
    (hkeep : record.terminal = none ∨ record.reported = false ∧ record.deliveryClosed = false)
    (now : ℕ) : (ledger.expire now).records[key]? = some record := by
  rw [OutcomeLedger.expire, foldl_remove_records, lookup_foldl_erase, if_neg, hr]
  intro hmem
  obtain ⟨⟨k, r⟩, hentry, rfl⟩ := List.mem_map.mp hmem
  obtain ⟨hlist, hexpired⟩ := List.mem_filter.mp hentry
  obtain rfl : record = r := Option.some.inj
    (hr.symm.trans (ExtTreeMap.mem_toList_iff_getElem?_eq_some.mp hlist))
  rcases hkeep with hnone | ⟨hreported, hclosed⟩
  · simp [isExpired, hnone] at hexpired
  · simp [isExpired, hreported, hclosed] at hexpired

end Net.OutcomeLedger
