import Discordium.Lib.Machine
import Discordium.Net.Synchronization.Committed

/-!
# Net — Synchronization — Lead

The lead controller of `synchronization.rs`: how many ticks ahead of the estimated server tick a
client aims its commands.  `observe_arrival_slack` hears how early a command arrived, raises the
lead at once when one came too late, and lowers it only while the recent arrivals were ample;
`assign_target` issues target ticks.

**Paced targets** (`lead_paced`).  Over any interleaving of the two calls the lead stays in 1..=12,
the targets issued strictly increase, and the lead is lowered at most once in eight reports.
-/

namespace Net
open Lib

structure LeadController where
  lead : ℕ
  samples : List ℤ
  lastTarget : Option ℕ
  resync : Option ResyncReason

namespace LeadController

def new (lead : ℕ) : Except SyncError LeadController :=
  if 1 ≤ lead ∧ lead ≤ 12 then .ok ⟨lead, [], none, none⟩ else .error .invalidConfiguration

def bootstrap (rate : TickRate) (networkRoundTrip jitterAndQueueMargin : ℕ) :
    Except SyncError LeadController :=
  (obtainOr .timeRange (addDuration (networkRoundTrip / 2) jitterAndQueueMargin)).bind
    fun estimate =>
    let ticks := max (estimate * rate.hz ⌈/⌉ nanosPerSecond) 1
    if 12 < ticks then .error (.resyncRequired .leadExceeded) else new ticks

/-- At least eight samples, whose lower quartile is above 2. -/
def overbuffered (samples : List ℤ) : Bool :=
  8 ≤ samples.length && (samples.insertionSort (· ≤ ·))[samples.length / 4]?.any (2 < ·)

/-- The samples with one more: a full window of 32 gives up its oldest. -/
def sampled (controller : LeadController) (slack : ℤ) : List ℤ :=
  controller.samples.drop (if controller.samples.length = 32 then 1 else 0) ++ [slack]

def observeArrivalSlack (controller : LeadController) (slack : ℤ) :
    LeadController × Except SyncError ℕ :=
  match controller.resync with
  | some reason => (controller, .error (.resyncRequired reason))
  | none =>
    if slack < -12 ∨ 12 < slack then (controller, .error .invalidSample)
    else if slack ≤ 0 then
      if controller.lead = 12 then
        ({ controller with resync := some .leadExceeded }, .error (.resyncRequired .leadExceeded))
      else ({ controller with lead := controller.lead + 1, samples := [] },
        .ok (controller.lead + 1))
    else if overbuffered (controller.sampled slack) = true ∧ 1 < controller.lead then
      ({ controller with lead := controller.lead - 1, samples := [] }, .ok (controller.lead - 1))
    else ({ controller with samples := controller.sampled slack }, .ok controller.lead)

/-- The target one issued after `lastTarget`, if any: none while the clock has yet to catch up. -/
def assignTarget (controller : LeadController) (estimatedServerTick : ℕ) :
    LeadController × Except SyncError (Option ℕ) :=
  match controller.resync, checkedAdd 64 estimatedServerTick controller.lead with
  | some reason, _ => (controller, .error (.resyncRequired reason))
  | none, none => (controller, .error .timeRange)
  | none, some target =>
    if controller.lastTarget.any (target ≤ ·) then (controller, .ok none)
    else if controller.lastTarget.any (12 < target - ·) then
      ({ controller with resync := some .targetDiscontinuity },
        .error (.resyncRequired .targetDiscontinuity))
    else ({ controller with lastTarget := some target }, .ok (some target))

/-! ### The lower quartile -/

/-- At most `k` elements of a sorted list are `c` or less, if its element at `k` is above `c`. -/
theorem lt_getElem_iff_countP_le {l : List ℤ} (h : l.Pairwise (· ≤ ·)) {k : ℕ}
    (hk : k < l.length) (c : ℤ) : c < l[k] ↔ l.countP (· ≤ c) ≤ k := by
  induction l generalizing k with
  | nil => exact absurd hk (Nat.not_lt_zero k)
  | cons a l ih =>
    obtain ⟨ha, hl⟩ := List.pairwise_cons.mp h
    -- nothing after an element above `c` is `c` or less
    have habove : c < a → l.countP (· ≤ c) = 0 := by
      intro hc
      refine List.countP_eq_zero.mpr fun b hb => ?_
      simpa using hc.trans_le (ha b hb)
    rw [List.countP_cons]
    cases k with
    | zero =>
      simp only [List.getElem_cons_zero, decide_eq_true_eq]
      split
      · omega
      · have := habove (by omega)
        omega
    | succ k =>
      have hk' : k < l.length := by simpa using hk
      have hle := ha _ (List.getElem_mem hk')
      have hcount := ih hl hk'
      simp only [List.getElem_cons_succ, decide_eq_true_eq]
      split
      · omega
      · have := habove (by omega)
        omega

/-- At least eight reports, at most a quarter of them of a slack of 2 or less. -/
def Ample (slacks : List ℤ) : Prop :=
  8 ≤ slacks.length ∧ 4 * slacks.countP (· ≤ 2) ≤ slacks.length

instance : DecidablePred Ample := fun _ => inferInstanceAs (Decidable (_ ∧ _))

theorem overbuffered_iff {slacks : List ℤ} : overbuffered slacks = true ↔ Ample slacks := by
  unfold overbuffered Ample
  rw [Bool.and_eq_true, decide_eq_true_eq]
  refine and_congr_right fun hlong => ?_
  have hk : slacks.length / 4 < (slacks.insertionSort (· ≤ ·)).length := by
    rw [List.length_insertionSort]
    omega
  rw [List.getElem?_eq_getElem hk, Option.any_some, decide_eq_true_eq,
    lt_getElem_iff_countP_le (List.pairwise_insertionSort (· ≤ ·) slacks) hk,
    (List.perm_insertionSort (· ≤ ·) slacks).countP_eq]
  omega

/-! ### Runs -/

inductive Call where
  | observe (slack : ℤ)
  | assign (estimatedServerTick : ℕ)

/-- A controller with what it has done: the slacks heard since its lead changed, the targets issued,
how many reports it took and how often it lowered the lead. -/
structure Log where
  controller : LeadController
  heard : List ℤ
  issued : List ℕ
  reports : ℕ
  drops : ℕ

def Log.step (log : Log) : Call → Log
  | .observe slack =>
    match log.controller.observeArrivalSlack slack with
    | (next, .error _) => { log with controller := next }
    | (next, .ok lead) =>
      { log with
        controller := next
        heard := if lead = log.controller.lead then log.heard ++ [slack] else []
        reports := log.reports + 1
        drops := log.drops + (log.controller.lead - lead) }
  | .assign estimated =>
    match log.controller.assignTarget estimated with
    | (next, .ok (some target)) => { log with controller := next, issued := log.issued ++ [target] }
    | (next, _) => { log with controller := next }

/-- The slacks a window of 32 holds. -/
def recent (heard : List ℤ) : List ℤ := heard.drop (heard.length - 32)

theorem length_recent (heard : List ℤ) : (recent heard).length = min heard.length 32 := by
  rw [recent, List.length_drop]
  omega

theorem recent_append (heard : List ℤ) (slack : ℤ) :
    (recent heard).drop (if (recent heard).length = 32 then 1 else 0) ++ [slack] = recent
    (heard ++ [slack]) := by
  have hdrop : heard.length + 1 - 32 ≤ heard.length := by omega
  rw [length_recent, recent, recent, List.drop_drop, List.length_append, List.length_singleton,
    List.drop_append_of_le_length hdrop]
  congr 2
  split <;> omega

structure Paced (log : Log) : Prop where
  lead_pos : 1 ≤ log.controller.lead
  lead_le : log.controller.lead ≤ 12
  samples : log.controller.samples = recent log.heard
  last : log.controller.lastTarget = log.issued.getLast?
  chained : log.issued.IsChain fun earlier later => earlier < later ∧ later ≤ earlier + 12
  spaced : 8 * log.drops + log.heard.length ≤ log.reports

variable {log : Log} {start controller : LeadController}

theorem Paced.sampled (h : Paced log) (slack : ℤ) :
    log.controller.sampled slack = recent (log.heard ++ [slack]) := by
  rw [LeadController.sampled, h.samples, recent_append]

theorem Paced.starting {lead : ℕ} (h : new lead = .ok start) :
    Paced ⟨start, [], [], 0, 0⟩ := by
  unfold new at h
  split at h
  · cases h
    exact ⟨‹_ ∧ _›.1, ‹_ ∧ _›.2, rfl, rfl, .nil, Nat.le_refl 0⟩
  · cases h

theorem exists_new_of_bootstrap {rate : TickRate} {roundTrip margin : ℕ}
    (h : bootstrap rate roundTrip margin = .ok start) : ∃ lead, new lead = .ok start := by
  obtain ⟨estimate, -, h⟩ := bind_eq_ok.mp h
  dsimp only at h
  split at h
  · cases h
  · exact ⟨_, h⟩

theorem Paced.latch (h : Paced log) (resync : Option ResyncReason) :
    Paced { log with controller := { log.controller with resync } } :=
  ⟨h.lead_pos, h.lead_le, h.samples, h.last, h.chained, h.spaced⟩

/-- A change of the lead starts the window anew. -/
theorem Paced.change (h : Paced log) {lead : ℕ} {resync : Option ResyncReason} (hpos : 1 ≤ lead)
    (hle : lead ≤ 12) (hspaced : 8 * (log.drops + (log.controller.lead - lead)) ≤ log.reports + 1) :
    Paced { log with
      controller := ⟨lead, [], log.controller.lastTarget, resync⟩
      heard := []
      reports := log.reports + 1
      drops := log.drops + (log.controller.lead - lead) } :=
  ⟨hpos, hle, rfl, h.last, h.chained, hspaced⟩

theorem Paced.observe (h : Paced log) (slack : ℤ) : Paced (log.step (.observe slack)) := by
  have hspaced := h.spaced
  simp only [Log.step, observeArrivalSlack]
  cases log.controller.resync with
  | some reason => exact h.latch _
  | none =>
    dsimp only
    split_ifs with hrange hlate hfull hample
    · exact h.latch _
    · exact h.latch _
    · have hle := h.lead_le
      dsimp only
      rw [if_neg (Nat.succ_ne_self _)]
      refine h.change ?_ ?_ ?_ <;> omega
    · -- the window that was ample holds at least eight of the slacks heard
      have hlong := (overbuffered_iff.mp hample.1).1
      rw [h.sampled, length_recent, List.length_append, List.length_singleton] at hlong
      have hle := h.lead_le
      dsimp only
      rw [if_neg (by omega)]
      refine h.change ?_ ?_ ?_ <;> omega
    · refine ⟨h.lead_pos, h.lead_le, by simp only [if_true, h.sampled], h.last, h.chained, ?_⟩
      simp only [if_true, List.length_append, List.length_singleton, Nat.sub_self]
      omega

theorem assignTarget_some {estimated target : ℕ} :
    (controller.assignTarget estimated).2 = .ok (some target) ↔
      controller.resync = none ∧ target = estimated + controller.lead ∧ target ≤ wordMax 64 ∧
        ∀ last ∈ controller.lastTarget, last < target ∧ target ≤ last + 12 := by
  unfold assignTarget
  cases controller.resync with
  | some reason => simp
  | none =>
    cases hsum : checkedAdd 64 estimated controller.lead with
    | none =>
      unfold checkedAdd at hsum
      split at hsum
      · cases hsum
      · simp
        omega
    | some sum =>
      obtain ⟨rfl, hfits⟩ := checkedAdd_eq_some.mp hsum
      cases hlast : controller.lastTarget with
      | none => simp; omega
      | some last =>
        simp
        split_ifs <;> simp <;> omega

theorem assignTarget_next (controller : LeadController) (estimated : ℕ) :
    (∃ target, controller.assignTarget estimated =
      ({ controller with lastTarget := some target }, .ok (some target))) ∨
    (∀ target, (controller.assignTarget estimated).2 ≠ .ok (some target)) ∧
      ∃ resync, (controller.assignTarget estimated).1 = { controller with resync } := by
  unfold assignTarget
  split
  · exact .inr ⟨by simp, _, rfl⟩
  · exact .inr ⟨by simp, _, rfl⟩
  · split_ifs
    · exact .inr ⟨by simp, _, rfl⟩
    · exact .inr ⟨by simp, _, rfl⟩
    · exact .inl ⟨_, rfl⟩

theorem Paced.assign (h : Paced log) (estimated : ℕ) : Paced (log.step (.assign estimated)) := by
  unfold Log.step
  dsimp only
  obtain ⟨target, heq⟩ | ⟨hnone, resync, hnext⟩ := assignTarget_next log.controller estimated
  · obtain ⟨-, -, -, hafter⟩ := assignTarget_some.mp (congrArg Prod.snd heq)
    rw [heq]
    refine ⟨h.lead_pos, h.lead_le, h.samples, List.getLast?_concat.symm, ?_, h.spaced⟩
    refine List.isChain_append.mpr ⟨h.chained, .singleton target, ?_⟩
    rintro earlier hearlier _ ⟨⟩
    exact hafter earlier (by rwa [h.last])
  · split
    · next heq => exact absurd (congrArg Prod.snd heq) (hnone _)
    · next heq =>
      rw [heq] at hnext
      subst hnext
      exact h.latch resync

theorem Paced.run (h : Paced log) (calls : List Call) : Paced (run Log.step log calls) := by
  refine run_invariant (fun log call hlog => ?_) h calls
  cases call with
  | observe slack => exact hlog.observe slack
  | assign estimated => exact hlog.assign estimated

theorem step_latched {reason : ResyncReason} (h : log.controller.resync = some reason)
    (call : Call) : log.step call = log := by
  cases call with
  | observe slack => simp only [Log.step, observeArrivalSlack, h]
  | assign estimated => simp only [Log.step, assignTarget, h]

theorem observeArrivalSlack_lead {slack : ℤ} (hactive : controller.resync = none)
    (hlow : -12 ≤ slack) (hhigh : slack ≤ 12) :
    (controller.observeArrivalSlack slack).1.lead =
      if slack ≤ 0 then (if controller.lead = 12 then 12 else controller.lead + 1)
      else if Ample (controller.sampled slack) ∧ 1 < controller.lead then controller.lead - 1
      else controller.lead := by
  have hrange : ¬(slack < -12 ∨ 12 < slack) := by omega
  simp only [observeArrivalSlack, hactive, if_neg hrange, overbuffered_iff]
  split_ifs <;> simp_all

/-- Over every interleaving of reports and assignments from a fresh controller. -/
theorem lead_paced {start : LeadController}
    (hstart : (∃ lead, new lead = .ok start) ∨
      ∃ rate roundTrip margin, bootstrap rate roundTrip margin = .ok start)
    (calls : List Call) :
    let log := run Log.step ⟨start, [], [], 0, 0⟩ calls
    let controller := log.controller
    (1 ≤ controller.lead ∧ controller.lead ≤ 12) ∧
    (log.issued.IsChain fun earlier later => earlier < later ∧ later ≤ earlier + 12) ∧
    8 * log.drops ≤ log.reports ∧
    (controller.resync = none →
      (∀ slack, -12 ≤ slack → slack ≤ 12 →
        let next := (controller.observeArrivalSlack slack).1.lead
        (next + 1 = controller.lead ↔
          0 < slack ∧ 1 < controller.lead ∧ Ample (recent (log.heard ++ [slack]))) ∧
        (next = controller.lead + 1 ↔ slack ≤ 0 ∧ controller.lead < 12) ∧
        (next + 1 = controller.lead ∨ next = controller.lead + 1 ∨ next = controller.lead)) ∧
      ∀ estimated target, (controller.assignTarget estimated).2 = .ok (some target) ↔
        target = estimated + controller.lead ∧ target ≤ wordMax 64 ∧
          ∀ last ∈ log.issued.getLast?, last < target ∧ target ≤ last + 12) ∧
    ∀ reason, controller.resync = some reason → ∀ more,
      run Log.step log more = log ∧
      (∀ slack, (controller.observeArrivalSlack slack).2 = .error (.resyncRequired reason)) ∧
      ∀ estimated, (controller.assignTarget estimated).2 = .error (.resyncRequired reason) := by
  intro log controller
  obtain ⟨lead, hnew⟩ : ∃ lead, new lead = .ok start := by
    obtain hnew | ⟨_, _, _, hboot⟩ := hstart
    · exact hnew
    · exact exists_new_of_bootstrap hboot
  have hpaced : Paced log := (Paced.starting hnew).run calls
  refine ⟨⟨hpaced.lead_pos, hpaced.lead_le⟩, hpaced.chained, ?_, ?_, ?_⟩
  · have := hpaced.spaced
    omega
  · intro hactive
    refine ⟨fun slack hlow hhigh => ?_, fun estimated target => ?_⟩
    · have hlead := observeArrivalSlack_lead hactive hlow hhigh
      have hle : controller.lead ≤ 12 := hpaced.lead_le
      rw [hpaced.sampled] at hlead
      dsimp only
      rw [hlead]
      by_cases hample : Ample (recent (log.heard ++ [slack]))
      · simp only [hample, true_and, and_true]
        split_ifs <;> omega
      · simp only [hample, false_and, and_false, if_false, iff_false]
        split_ifs <;> omega
    · rw [assignTarget_some, hpaced.last]
      exact and_iff_right hactive
  · intro reason hlatched more
    refine ⟨run_invariant (I := (· = log)) (fun s call hs => ?_) rfl more, fun slack => ?_,
      fun estimated => ?_⟩
    · rw [hs]
      exact step_latched hlatched call
    · simp only [observeArrivalSlack, hlatched]
    · simp only [assignTarget, hlatched]

/-- Eight ample reports lower the lead once, and the next target waits for the clock. -/
theorem lead_paced_ample : ∃ start, new 3 = .ok start ∧
    let calls := [.assign 10] ++ List.replicate 8 (.observe 5) ++ [.assign 10, .assign 12]
    let log := run Log.step ⟨start, [], [], 0, 0⟩ calls
    log.issued = [13, 14] ∧ log.drops = 1 ∧ 8 * log.drops ≤ log.reports :=
  ⟨⟨3, [], none, none⟩, rfl, by decide +kernel, by decide +kernel,
    (lead_paced (.inl ⟨3, rfl⟩) ([.assign 10] ++ List.replicate 8 (.observe 5) ++
      [.assign 10, .assign 12])).2.2.1⟩

end LeadController
end Net
