import Discordium.Lib.Bucket
import Discordium.Lib.Machine
import Discordium.Net.Scheduling.Choice

/-!
# Net — Scheduling — Metering

A scheduler over a whole run of `schedule` and `transmit` calls.  The run keeps every plan it was
given, with the time it was scheduled at, and may try to transmit any of them, any number of times;
a plan is consumed in the source, so this is more than a program can do.  What the transport
accepted is kept in a log.

**The token bucket** (`scheduler_metered`).  The bytes accepted by the plans of any span of time are
at most the burst and what the rate gives in that span, with no rounding; a plan transmits at most
once, and only while it is current.
-/

namespace Net.Scheduling
open Lib Interest
open Std (ExtTreeMap ExtTreeSet)

/-- Nanobytes in a byte. -/
def nano : ℕ := 1000000000

/-- The units that the transport accepts, attempt by attempt. -/
def accepted (send : ℕ → UnitRequest → Bool) (selected : List UnitRequest) : List UnitRequest :=
  (selected.zipIdx.filter fun unit => send unit.2 unit.1).map Prod.fst

namespace Scheduler
variable {scheduler scheduler' scheduler'' : Scheduler} {eligible : Interest.EligibleSet}
  {requests : List UnitRequest}
  {now serial tick : ℕ} {transport : TransportBudget} {seen : Seen} {send : ℕ → UnitRequest → Bool}

/-! ### Transmissions -/

/-- The units were charged, and their history says so. -/
structure Charged (tick : ℕ) (units : List UnitRequest)
    (scheduler scheduler' : Scheduler) : Prop where
  same : scheduler' = { scheduler with tokens := scheduler'.tokens, history := scheduler'.history }
  tokens : scheduler'.tokens + wireTotal units * nano = scheduler.tokens
  history : ∀ id : UnitId, scheduler'.history[id]? =
    if id ∈ units.map (·.id) then scheduler.history[id]?.map fun h =>
      { h with lastTransmitted := some tick }
    else scheduler.history[id]?

theorem Charged.nil (tick : ℕ) (scheduler : Scheduler) : Charged tick [] scheduler scheduler :=
  ⟨rfl, by simp [wireTotal], by simp⟩

variable {units : List UnitRequest} {result sofar : Scheduler × TransmitMetrics}

theorem Charged.trans {units' : List UnitRequest} (h : Charged tick units scheduler scheduler')
    (h' : Charged tick units' scheduler' scheduler'') :
    Charged tick (units ++ units') scheduler scheduler'' where
  same := by
    rw [h'.same, h.same]
  tokens := by
    have htokens := h.tokens
    have htokens' := h'.tokens
    simp only [wireTotal, List.map_append, List.sum_append, Nat.add_mul] at *
    omega
  history id := by
    rw [h'.history, h.history]
    simp only [List.map_append, List.mem_append]
    by_cases hid : id ∈ units.map (·.id) <;> by_cases hid' : id ∈ units'.map (·.id)
    · simp only [hid, hid', if_true, or_self, Option.map_map]
      rfl
    · simp [hid, hid']
    · simp [hid, hid']
    · simp [hid, hid']

theorem Charged.contains_eq (h : Charged tick units scheduler scheduler') (id : UnitId) :
    scheduler'.history.contains id = scheduler.history.contains id := by
  rw [contains_eq_isSome, contains_eq_isSome, h.history]
  split_ifs
  · rw [Option.isSome_map]
  · rfl

theorem attempt_some {metrics : TransmitMetrics} {unit : UnitRequest × ℕ}
    (h : attempt tick send (scheduler, metrics) unit = some result) :
    Charged tick (if send unit.2 unit.1 then [unit.1] else []) scheduler result.1 := by
  unfold attempt at h
  dsimp only at h
  split at h
  · rename_i hsend
    obtain ⟨tokens, htokens, h⟩ := Option.bind_eq_some_iff.mp h
    obtain ⟨old, hold, rfl⟩ := Option.map_eq_some_iff.mp h
    obtain ⟨hle, rfl⟩ := checkedSub_eq_some.mp htokens
    rw [if_pos hsend]
    refine ⟨rfl, ?_, fun id => ?_⟩
    · simp only [wireTotal, List.map_singleton, List.sum_singleton, nano]
      omega
    · simp only [lookup_insert, List.map_singleton, List.mem_singleton]
      by_cases hid : id = unit.1.id
      · subst hid
        simp [hold]
      · simp [hid, Ne.symm hid]
  · rename_i hsend
    cases h
    rw [if_neg hsend]
    exact .nil tick scheduler

theorem attempts_some {units : List (UnitRequest × ℕ)}
    (h : units.foldlM (attempt tick send) sofar = some result) :
    Charged tick ((units.filter fun unit => send unit.2 unit.1).map Prod.fst) sofar.1 result.1 := by
  induction units generalizing sofar with
  | nil =>
    cases h
    exact .nil tick _
  | cons unit units ih =>
    rw [List.foldlM_cons] at h
    obtain ⟨next, hnext, hrest⟩ := Option.bind_eq_some_iff.mp h
    have hcharged := (attempt_some hnext).trans (ih hrest)
    by_cases hsend : send unit.2 unit.1 = true
    · rw [if_pos hsend, List.singleton_append] at hcharged
      rwa [List.filter_cons, if_pos hsend, List.map_cons]
    · rw [if_neg hsend, List.nil_append] at hcharged
      rwa [List.filter_cons, if_neg hsend]

/-- There are tokens for all of the units, and a history for each. -/
theorem attempts_succeed {units : List (UnitRequest × ℕ)}
    (htokens : wireTotal (units.map Prod.fst) * nano ≤ sofar.1.tokens)
    (hhistory : ∀ unit ∈ units, sofar.1.history.contains unit.1.id = true) :
    ∃ result, units.foldlM (attempt tick send) sofar = some result := by
  induction units generalizing sofar with
  | nil => exact ⟨sofar, rfl⟩
  | cons unit units ih =>
    obtain ⟨hown, hothers⟩ := List.forall_mem_cons.mp hhistory
    have hsum : wireTotal ((unit :: units).map Prod.fst) = unit.1.wireBytes +
        wireTotal (units.map Prod.fst) := by
      simp [wireTotal]
    rw [hsum, Nat.add_mul] at htokens
    have hown_le : unit.1.wireBytes * 1000000000 ≤ sofar.1.tokens :=
      (Nat.le_add_right _ _).trans htokens
    obtain ⟨next, hnext⟩ : ∃ next, attempt tick send sofar unit = some next := by
      unfold attempt
      dsimp only
      split
      · rw [contains_eq_isSome, Option.isSome_iff_exists] at hown
        obtain ⟨old, hold⟩ := hown
        rw [checkedSub, if_pos hown_le, Option.bind_some, hold, Option.map_some]
        exact ⟨_, rfl⟩
      · exact ⟨_, rfl⟩
    have hcharged := attempt_some hnext
    have hleft : wireTotal (units.map Prod.fst) * nano ≤ next.1.tokens := by
      have hpaid : wireTotal (if send unit.2 unit.1 then [unit.1] else []) * nano ≤
          unit.1.wireBytes * nano := by
        refine Nat.mul_le_mul_right _ ?_
        split_ifs <;> simp [wireTotal]
      have htokens' := hcharged.tokens
      omega
    have hkept : ∀ other ∈ units, next.1.history.contains other.1.id = true :=
      fun other hother => by
      rw [hcharged.contains_eq]
      exact hothers other hother
    obtain ⟨result, hresult⟩ := ih hleft hkept
    exact ⟨result, by rw [List.foldlM_cons, hnext]; exact hresult⟩

/-- What a transmission comes to. -/
inductive Transmitted (scheduler : Scheduler) (plan : SchedulePlan)
    (worldRevision policyRevision : ℕ) (send : ℕ → UnitRequest → Bool) :
    Scheduler × Answer ScheduleError TransmitMetrics → Prop
  | refused (error : ScheduleError) :
      Transmitted scheduler plan worldRevision policyRevision send (scheduler, .err error)
  | sent (scheduler' : Scheduler) (metrics : TransmitMetrics)
      (hserial : plan.serial = scheduler.serial)
      (hcurrent : plan.eligible.isCurrent worldRevision policyRevision = true)
      (hcharged : Charged plan.eligible.tick (accepted send plan.selected)
        { scheduler with serial := scheduler.serial + 1 } scheduler') :
      Transmitted scheduler plan worldRevision policyRevision send (scheduler', .ok metrics)

/-- A transmission of what there are tokens and histories for does not panic. -/
theorem transmit_cases {plan : SchedulePlan} (worldRevision policyRevision : ℕ)
    (send : ℕ → UnitRequest → Bool) (h : plan.serial = scheduler.serial →
      wireTotal plan.selected * nano ≤ scheduler.tokens ∧ ∀ unit ∈ plan.selected,
        scheduler.history.contains unit.id = true) :
    Transmitted scheduler plan worldRevision policyRevision send
      (scheduler.transmit plan worldRevision policyRevision send) := by
  unfold transmit
  split
  · exact .refused _
  rename_i hstale
  rw [not_or, not_not, Bool.not_eq_true', Bool.not_eq_false] at hstale
  split
  · exact .refused _
  rename_i serial hserial
  obtain ⟨rfl, -⟩ := checkedAdd_eq_some.mp hserial
  obtain ⟨htokens, hhistory⟩ := h hstale.1
  obtain ⟨result, hresult⟩ : ∃ result, plan.selected.zipIdx.foldlM (attempt plan.eligible.tick send)
      ({ scheduler with serial := scheduler.serial + 1 }, ⟨0, 0, 0⟩) = some result := by
    refine attempts_succeed ?_ fun unit hunit => hhistory unit.1 ?_
    · rwa [List.zipIdx_map_fst]
    · rw [← List.zipIdx_map_fst 0 plan.selected]
      exact List.mem_map_of_mem hunit
  rw [hresult]
  exact .sent result.1 result.2 hstale.1 hstale.2 (attempts_some hresult)

/-! ### Schedules -/

/-- **A refill is exact**: no sum or product that saturates is below the burst. -/
theorem refilled_eq (scheduler : Scheduler) (now : ℕ) :
    scheduler.refilled now = min (scheduler.tokens + scheduler.limits.bytesPerSecond *
      (now - scheduler.now))
      (scheduler.limits.burstBytes * nano) := by
  have hburst : scheduler.limits.burstBytes * nano ≤ wordMax 128 := by
    refine (Nat.mul_le_mul_right _ scheduler.limits.burst_word).trans ?_
    decide
  unfold refilled saturatingAdd saturatingMul
  rw [Nat.mul_comm (now - scheduler.now)]
  change min _ (scheduler.limits.burstBytes * nano) = _
  omega

/-- What a schedule comes to. -/
inductive Scheduled (scheduler : Scheduler) (eligible : Interest.EligibleSet)
    (requests : List UnitRequest) (now : ℕ) (transport : TransportBudget) :
    Scheduler × Answer ScheduleError SchedulePlan → Prop
  | refused (error : ScheduleError) :
      Scheduled scheduler eligible requests now transport (scheduler, .err error)
  | planned (scheduler' : Scheduler) (plan : SchedulePlan) (seen : Seen) (serial : ℕ)
      (hchecked : Checked scheduler eligible requests now seen serial)
      (hadvance : scheduler' = scheduler.advance eligible requests now seen serial)
      (heligible : plan.eligible = eligible) (hserial : plan.serial = scheduler'.serial)
      (hselects : scheduler'.Selects requests transport plan.selected) :
      Scheduled scheduler eligible requests now transport (scheduler', .ok plan)

/-- No history is later than the tick. -/
def Dated (scheduler : Scheduler) : Prop :=
  ∀ (id : UnitId) h, scheduler.history[id]? = some h →
    h.firstDue ≤ scheduler.tick ∧ ∀ tick ∈ h.lastTransmitted, tick ≤ scheduler.tick

theorem Checked.dated (h : Checked scheduler eligible requests now seen serial)
    (hdated : scheduler.Dated) : (scheduler.advance eligible requests now seen serial).Dated := by
  intro id history hhistory
  rw [h.lookup_history] at hhistory
  split_ifs at hhistory
  cases hold : scheduler.history[id]? with
  | none =>
    rw [hold] at hhistory
    cases hhistory
    exact ⟨le_rfl, nofun⟩
  | some old =>
    rw [hold] at hhistory
    cases hhistory
    obtain ⟨hfirst, hlast⟩ := hdated id old hold
    exact ⟨hfirst.trans h.tick, fun tick htick => (hlast tick htick).trans h.tick⟩

theorem schedule_cases (hdated : scheduler.Dated) (eligible : Interest.EligibleSet)
    (requests : List UnitRequest) (now : ℕ) (transport : TransportBudget) :
    Scheduled scheduler eligible requests now transport
      (scheduler.schedule eligible requests now transport) := by
  unfold schedule
  split
  · exact .refused _
  rename_i seen serial hvalidate
  have hchecked := validate_ok_iff.mp hvalidate
  have hdated' := hchecked.dated hdated
  -- every request has a history in the committed state
  have hall : requests.all (scheduler.advance eligible requests now seen serial).dated = true := by
    rw [List.all_eq_true]
    intro request hrequest
    have hhistory := hchecked.lookup_history request.id
    rw [if_pos (List.mem_map_of_mem hrequest)] at hhistory
    obtain ⟨hfirst, hlast⟩ := hdated' _ _ hhistory
    rw [dated, hhistory, Option.any_some, decide_eq_true_iff]
    generalize scheduler.history[request.id]?.getD ⟨eligible.tick, none⟩ = history at hfirst hlast
    cases hsent : history.lastTransmitted with
    | none => exact hfirst
    | some tick => exact hlast tick hsent
  have hplan :=
    @plan_eq (scheduler.advance eligible requests now seen serial) eligible requests transport
  rw [if_pos hall] at hplan
  dsimp only
  rw [hplan]
  exact .planned _ _ seen serial hchecked rfl rfl rfl (selects hchecked.valid.ids)

end Scheduler

/-! ### Runs -/

/-- A scheduler, the plans it gave, newest first, with their times, and what was sent of them. -/
structure Sending where
  scheduler : Scheduler
  plans : List (ℕ × SchedulePlan)
  /-- The time of the plan and the bytes accepted, transmission by transmission. -/
  sent : List (ℕ × ℕ)
  /-- The serials of the plans that were transmitted. -/
  transmitted : List ℕ
  panicked : Bool

inductive Call where
  | schedule (eligible : Interest.EligibleSet) (requests : List UnitRequest) (now : ℕ)
      (transport : TransportBudget)
  /-- Transmits the plan with that many newer ones. -/
  | transmit (n worldRevision policyRevision : ℕ) (send : ℕ → UnitRequest → Bool)

namespace Sending

def start (scheduler : Scheduler) : Sending := ⟨scheduler, [], [], [], false⟩

def call (s : Sending) : Call → Sending
  | .schedule eligible requests now transport =>
    match s.scheduler.schedule eligible requests now transport with
    | (scheduler, .ok plan) => { s with scheduler, plans := (now, plan) :: s.plans }
    | (scheduler, .err _) => { s with scheduler }
    | (scheduler, .panic) => { s with scheduler, panicked := true }
  | .transmit n worldRevision policyRevision send =>
    match s.plans[n]? with
    | none => s
    | some (time, plan) =>
      match s.scheduler.transmit plan worldRevision policyRevision send with
      | (scheduler, .ok _) =>
        { s with
          scheduler
          sent := (time, Scheduler.wireTotal (accepted send plan.selected)) :: s.sent
          transmitted := plan.serial :: s.transmitted }
      | (scheduler, .err _) => { s with scheduler }
      | (scheduler, .panic) => { s with scheduler, panicked := true }

/-- What was sent, in nanobytes. -/
def log (s : Sending) : List (ℕ × ℕ) := s.sent.map fun entry => (entry.1, entry.2 * nano)

/-- The invariant of a run. -/
structure Sound (limits : SchedulerLimits) (s : Sending) : Prop where
  limits_eq : s.scheduler.limits = limits
  calm : s.panicked = false
  metered : Metered limits.bytesPerSecond (limits.burstBytes * nano) s.scheduler.now
    s.scheduler.tokens s.log
  dated : s.scheduler.Dated
  serials : (s.plans.map (·.2.serial)).Pairwise (· > ·)
  serial_le : ∀ plan ∈ s.plans, plan.2.serial ≤ s.scheduler.serial
  time : ∀ plan ∈ s.plans.head?, plan.1 = s.scheduler.now ∧ plan.2.eligible.tick = s.scheduler.tick
  room : ∀ plan ∈ s.plans, plan.2.serial = s.scheduler.serial →
    Scheduler.wireTotal plan.2.selected * nano ≤ s.scheduler.tokens ∧
      ∀ unit ∈ plan.2.selected, s.scheduler.history.contains unit.id = true
  once : s.transmitted.Nodup
  past : ∀ serial ∈ s.transmitted, serial < s.scheduler.serial

variable {limits : SchedulerLimits} {s : Sending}

/-- Only the latest plan has the serial of the scheduler. -/
theorem Sound.latest (h : s.Sound limits) {n : ℕ} {plan : ℕ × SchedulePlan}
    (hplan : s.plans[n]? = some plan) (hserial : plan.2.serial = s.scheduler.serial) : n = 0 := by
  cases n with
  | zero => rfl
  | succ n =>
    have hserials := h.serials
    cases hplans : s.plans with
    | nil => simp [hplans] at hplan
    | cons first rest =>
      rw [hplans, List.getElem?_cons_succ] at hplan
      rw [hplans, List.map_cons, List.pairwise_cons] at hserials
      have hnewer := hserials.1 plan.2.serial (List.mem_map_of_mem (List.mem_of_getElem? hplan))
      have hbound := h.serial_le first (by rw [hplans]; exact List.mem_cons_self)
      omega

theorem sound_start {connection : ℕ} {scheduler : Scheduler}
    (h : Scheduler.new connection limits = .ok scheduler) :
    (start scheduler).Sound limits := by
  unfold Scheduler.new at h
  split_ifs at h
  cases h
  exact ⟨rfl, rfl, Metered.full limits.bytesPerSecond (limits.burstBytes * nano) 0, nofun, .nil,
    nofun, nofun, nofun, .nil, nofun⟩

/-- A schedule that succeeds refills the bucket, and leaves room for what it selects. -/
theorem Sound.schedule (h : s.Sound limits) (eligible : Interest.EligibleSet)
    (requests : List UnitRequest) (now : ℕ) (transport : TransportBudget) :
    (s.call (.schedule eligible requests now transport)).Sound limits := by
  have hcases := s.scheduler.schedule_cases h.dated eligible requests now transport
  rw [call]
  generalize s.scheduler.schedule eligible requests now transport = answer at hcases
  cases hcases with
  | refused error => exact h
  | planned scheduler' plan seen serial hchecked hadvance heligible hserial hselects =>
    dsimp only
    have hlimits : scheduler'.limits = limits := by rw [hadvance, ← h.limits_eq]; rfl
    have hnow : scheduler'.now = now := by rw [hadvance]; rfl
    have htick : scheduler'.tick = eligible.tick := by rw [hadvance]; rfl
    have hnext : scheduler'.serial = s.scheduler.serial + 1 := by
      rw [hadvance, ← hchecked.serial]; rfl
    have htokens : scheduler'.tokens =
        min (s.scheduler.tokens + limits.bytesPerSecond * (now - s.scheduler.now))
          (limits.burstBytes * nano) := by
      rw [hadvance, ← h.limits_eq, ← Scheduler.refilled_eq]
      rfl
    have hlater : ∀ old ∈ s.plans, old.2.serial < scheduler'.serial := fun old hold => by
      have := h.serial_le old hold
      omega
    refine ⟨hlimits, h.calm, ?_, ?_, ?_, ?_, ?_, ?_, h.once, ?_⟩
    · rw [hnow, htokens]
      exact h.metered.refill hchecked.now
    · rw [hadvance]
      exact hchecked.dated h.dated
    · refine List.pairwise_cons.mpr ⟨fun serial hmem => ?_, h.serials⟩
      obtain ⟨old, hold, rfl⟩ := List.mem_map.mp hmem
      change old.2.serial < plan.serial
      rw [hserial]
      exact hlater old hold
    · exact List.forall_mem_cons.mpr ⟨hserial.le, fun old hold => (hlater old hold).le⟩
    · intro first hfirst
      obtain rfl := Option.some.inj hfirst
      exact ⟨hnow.symm, by rw [htick, heligible]⟩
    · refine List.forall_mem_cons.mpr ⟨fun _ => ⟨?_, fun unit hunit => ?_⟩, fun old hold heq =>
        absurd heq (hlater old hold).ne⟩
      · calc Scheduler.wireTotal plan.selected * nano ≤ scheduler'.tokens / nano * nano :=
              Nat.mul_le_mul_right _ (hselects.within.trans (min_le_right _ _))
          _ ≤ scheduler'.tokens := Nat.div_mul_le_self _ _
      · have hhistory := hchecked.lookup_history unit.id
        rw [← hadvance, if_pos (List.mem_map_of_mem (hselects.due unit hunit).1)] at hhistory
        exact contains_of_lookup hhistory
    · intro serial hmem
      have := h.past serial hmem
      dsimp only
      omega

/-- A transmission spends from the tokens of its plan's own time. -/
theorem Sound.transmit (h : s.Sound limits) (n worldRevision policyRevision : ℕ)
    (send : ℕ → UnitRequest → Bool) :
    (s.call (.transmit n worldRevision policyRevision send)).Sound limits := by
  rw [call]
  split
  · exact h
  rename_i time plan hplan
  have hmem := List.mem_of_getElem? hplan
  have hcases := Scheduler.transmit_cases worldRevision policyRevision send (h.room _ hmem)
  generalize s.scheduler.transmit plan worldRevision policyRevision send = answer at hcases
  cases hcases with
  | refused error => exact h
  | sent scheduler' metrics hserial hcurrent hcharged =>
    dsimp only at hserial ⊢
    obtain rfl : n = 0 := h.latest hplan hserial
    obtain ⟨htime, htick⟩ := h.time (time, plan) (by rw [List.head?_eq_getElem?]; exact hplan)
    have hsame := hcharged.same
    have hnext : scheduler'.serial = s.scheduler.serial + 1 := by rw [hsame]
    have htokens := hcharged.tokens
    refine ⟨by rw [hsame]; exact h.limits_eq, h.calm, ?_, ?_, h.serials, fun old hold => ?_, ?_,
      fun old hold heq => ?_, List.nodup_cons.mpr ⟨fun hagain => ?_, h.once⟩, ?_⟩
    · dsimp only at htime htokens
      have hnow : scheduler'.now = s.scheduler.now := by rw [hsame]
      have hspent :=
        h.metered.spend (show Scheduler.wireTotal (accepted send plan.selected) * nano ≤
        s.scheduler.tokens by omega)
      rw [show s.scheduler.tokens - Scheduler.wireTotal (accepted send plan.selected) * nano =
        scheduler'.tokens by
        omega, ← hnow] at hspent
      rw [← hnow] at htime
      rw [log, List.map_cons, htime]
      exact hspent
    · intro id history hhistory
      rw [hcharged.history] at hhistory
      have htick' : scheduler'.tick = s.scheduler.tick := by rw [hsame]
      rw [htick']
      split_ifs at hhistory
      · obtain ⟨old, hold, rfl⟩ := Option.map_eq_some_iff.mp hhistory
        refine ⟨(h.dated id old hold).1, fun last hlast => ?_⟩
        obtain rfl := Option.some.inj hlast
        exact htick.le
      · exact h.dated id history hhistory
    · have := h.serial_le old hold
      dsimp only
      omega
    · intro first hfirst
      have := h.time first hfirst
      rw [hsame]
      exact this
    · have := h.serial_le old hold
      dsimp only at heq
      omega
    · have := h.past _ hagain
      omega
    · refine List.forall_mem_cons.mpr ⟨?_, fun serial hmem => ?_⟩
      · dsimp only
        omega
      · have := h.past serial hmem
        dsimp only
        omega

theorem Sound.call (h : s.Sound limits) (c : Call) : (s.call c).Sound limits := by
  cases c with
  | schedule eligible requests now transport => exact h.schedule eligible requests now transport
  | transmit n worldRevision policyRevision send =>
      exact h.transmit n worldRevision policyRevision send

/-- What is sent of the plans of a span of time, in nanobytes. -/
theorem spentWithin_log (t₁ t₂ : ℕ) (sent : List (ℕ × ℕ)) :
    spentWithin t₁ t₂ (sent.map fun entry => (entry.1, entry.2 * nano)) = spentWithin t₁ t₂ sent *
      nano := by
  induction sent with
  | nil => simp [spentWithin]
  | cons entry sent ih =>
    rw [List.map_cons, spentWithin_cons, spentWithin_cons, ih, Nat.add_mul]
    split_ifs
    · rfl
    · rw [Nat.zero_mul]

/-- What holds after a run of calls, and of the next one. -/
structure Guarded (limits : SchedulerLimits) (s : Sending) : Prop where
  /-- The bytes accepted by the plans of a span of time. -/
  metered : ∀ t₁ t₂, t₁ ≤ t₂ →
    spentWithin t₁ t₂ s.sent * nano ≤ limits.burstBytes * nano + limits.bytesPerSecond * (t₂ - t₁)
  /-- No subtraction underflows and no look-up fails. -/
  calm : s.panicked = false
  /-- No plan transmits twice. -/
  once : s.transmitted.Nodup
  /-- A plan that transmits is the latest, was not transmitted, and is current; it charges what is
  accepted, and nothing else. -/
  transmits : ∀ n time plan worldRevision policyRevision send scheduler' metrics, s.plans[n]? =
    some (time, plan) → s.scheduler.transmit plan worldRevision policyRevision send =
      (scheduler', .ok metrics) →
    n = 0 ∧ plan.serial ∉ s.transmitted ∧
      plan.eligible.isCurrent worldRevision policyRevision = true ∧
        Scheduler.Charged plan.eligible.tick (accepted send plan.selected)
        { s.scheduler with serial := s.scheduler.serial + 1 } scheduler'
  /-- A schedule that succeeds refills exactly. -/
  refills : ∀ eligible requests now transport scheduler' plan,
    s.scheduler.schedule eligible requests now transport = (scheduler', .ok plan) →
    scheduler'.tokens =
      min (s.scheduler.tokens + limits.bytesPerSecond * (now - s.scheduler.now))
        (limits.burstBytes * nano)
  /-- A call that fails changes nothing. -/
  fails : (∀ eligible requests now transport scheduler' error,
      s.scheduler.schedule eligible requests now transport = (scheduler', .err error) →
        scheduler' = s.scheduler) ∧
    ∀ plan worldRevision policyRevision send scheduler' error,
      s.scheduler.transmit plan worldRevision policyRevision send = (scheduler', .err error) →
        scheduler' = s.scheduler

theorem transmit_err {scheduler scheduler' : Scheduler} {plan : SchedulePlan}
    {worldRevision policyRevision : ℕ} {send : ℕ → UnitRequest → Bool} {error : ScheduleError}
    (h : scheduler.transmit plan worldRevision policyRevision send = (scheduler', .err error)) :
    scheduler' = scheduler := by
  unfold Scheduler.transmit at h
  split at h
  · cases h
    rfl
  split at h
  · cases h
    rfl
  split at h
  · cases h
  · cases h

theorem Sound.guarded (h : s.Sound limits) : s.Guarded limits where
  metered t₁ t₂ ht := by
    rw [← spentWithin_log]
    exact h.metered.window_le ht
  calm := h.calm
  once := h.once
  transmits n time plan worldRevision policyRevision send scheduler' metrics hplan htransmit := by
    have hcases := Scheduler.transmit_cases worldRevision policyRevision send
      (h.room _ (List.mem_of_getElem? hplan))
    rw [htransmit] at hcases
    cases hcases with
    | sent _ _ hserial hcurrent hcharged =>
      refine ⟨h.latest hplan hserial, fun hmem => ?_, hcurrent, hcharged⟩
      exact absurd (h.past _ hmem) (by rw [hserial]; exact lt_irrefl _)
  refills eligible requests now transport scheduler' plan hschedule := by
    obtain ⟨seen, serial, -, rfl, -⟩ := Scheduler.schedule_ok hschedule
    rw [← h.limits_eq, ← Scheduler.refilled_eq]
    rfl
  fails := by
    refine ⟨fun eligible requests now transport scheduler' error hschedule => ?_,
      fun plan worldRevision policyRevision send scheduler' error htransmit =>
        transmit_err htransmit⟩
    have hcases := s.scheduler.schedule_cases h.dated eligible requests now transport
    rw [hschedule] at hcases
    cases hcases
    rfl

/-- **The token bucket**, over every run of calls. -/
theorem scheduler_metered {connection : ℕ} {scheduler : Scheduler}
    (h : Scheduler.new connection limits = .ok scheduler) (calls : List Call) :
    (run Sending.call (start scheduler) calls).Guarded limits :=
  (run_invariant (I := Sound limits) (fun _ c hs => hs.call c) (sound_start h) calls).guarded

/-- Two plans; the first is transmitted twice, and again after the second. -/
def twoPlans : List Call :=
  [.schedule Scheduler.pair Scheduler.pairRequests 10 ⟨1000, 1200⟩, .transmit 0 1 1 fun _ _ => true,
    .transmit 0 1 1 fun _ _ => true,
    .schedule Scheduler.pair Scheduler.pairRequests 20 ⟨1000, 1200⟩,
    .transmit 1 1 1 fun _ _ => true]

theorem scheduler_metered_two : Scheduler.new 1 .default = .ok Scheduler.fresh ∧
    (run Sending.call (start Scheduler.fresh) twoPlans).Guarded .default ∧
    (run Sending.call (start Scheduler.fresh) twoPlans).sent = [(10, 400)] :=
  ⟨rfl, scheduler_metered rfl twoPlans, by decide +kernel⟩

end Sending
end Net.Scheduling
