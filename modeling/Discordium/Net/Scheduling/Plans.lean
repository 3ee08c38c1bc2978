import Discordium.Lib.Greedy
import Discordium.Lib.Index
import Discordium.Net.Scheduling.Scheduler

/-!
# Net — Scheduling — Plans

What a schedule comes to, function by function.  The requests that pass the checks are `Valid`; the
state that is then committed has a history for exactly the units requested; the requests that are
due are those `dueOf` finds one by one; and the two passes of the selection are greedy passes over
the units in the order they are served.
-/

namespace Net.Scheduling
open Lib Interest
open Std (ExtTreeMap ExtTreeSet)

/-! ### Requests -/

/-- What a request has to be by itself. -/
structure Good (limits : SchedulerLimits) (eligible : Interest.EligibleSet)
    (request : UnitRequest) : Prop where
  wire : request.wireBytes ≠ 0
  period : request.cadence.periodTicks ≠ 0
  period_le : request.cadence.periodTicks ≤ request.cadence.maximumAgeTicks
  age_le : request.cadence.maximumAgeTicks ≤ limits.maximumAccumulatedAgeTicks
  inhabited : ¬request.members.isEmpty
  group : request.id matches .predictionGroup _ → eligible.prediction = .admitted request.members
  authorized : ∀ entity ∈ request.members.toList, eligible.entries.contains entity

/-- The requests a schedule takes: each good, and no unit or entity twice. -/
structure Valid (limits : SchedulerLimits) (eligible : Interest.EligibleSet)
    (requests : List UnitRequest) : Prop where
  good : ∀ request ∈ requests, Good limits eligible request
  ids : (requests.map (·.id)).Nodup
  members : (requests.flatMap (·.members.toList)).Nodup

theorem Valid.perm {limits : SchedulerLimits} {eligible : Interest.EligibleSet}
    {requests requests' : List UnitRequest} (h : Valid limits eligible requests)
    (hperm : requests.Perm requests') : Valid limits eligible requests' where
  good request hrequest := h.good request (hperm.mem_iff.mpr hrequest)
  ids := (hperm.map _).nodup_iff.mp h.ids
  members := (hperm.flatMap_right _).nodup_iff.mp h.members

namespace Seen
variable {limits : SchedulerLimits} {eligible : Interest.EligibleSet} {seen seen' : Seen}

theorem member_ok_iff {entity : EntityId} :
    seen.member eligible entity = .ok seen' ↔ eligible.entries.contains entity ∧
      entity ∉ seen.members ∧ seen' = { seen with members := seen.members.insert entity } := by
  simp only [member, bind_eq_ok, map_eq_ok, require_eq_ok, exists_const,
    ExtTreeSet.mem_iff_contains]
  rw [@eq_comm _ seen']

theorem member_loop_ok_iff {entities : List EntityId} :
    loop (member eligible) seen entities = .ok seen' ↔
      (∀ entity ∈ entities, eligible.entries.contains entity) ∧ entities.Nodup ∧
      (∀ entity ∈ entities, entity ∉ seen.members) ∧
        seen' = { seen with members := entities.foldl ExtTreeSet.insert seen.members } := by
  induction entities generalizing seen with
  | nil => simp [loop, @eq_comm _ seen']
  | cons entity entities ih =>
    simp only [loop, bind_eq_ok, member_ok_iff, ih, List.forall_mem_cons, List.nodup_cons,
      List.foldl_cons]
    constructor
    · rintro ⟨-, ⟨hknown, hfresh, rfl⟩, hall, hnodup, hnew, rfl⟩
      have hne : ∀ other ∈ entities, other ≠ entity ∧ other ∉ seen.members := fun other hother => by
        simpa only [mem_set_insert, not_or] using hnew other hother
      exact ⟨⟨hknown, hall⟩, ⟨fun hmem => (hne entity hmem).1 rfl, hnodup⟩,
        ⟨hfresh, fun other hother => (hne other hother).2⟩, rfl⟩
    · rintro ⟨⟨hknown, hall⟩, ⟨hne, hnodup⟩, ⟨hfresh, hnew⟩, rfl⟩
      refine ⟨_, ⟨hknown, hfresh, rfl⟩, hall, hnodup, fun other hother hmem => ?_, rfl⟩
      rcases (mem_set_insert _ _ _).mp hmem with rfl | hmem
      · exact hne hother
      · exact hnew other hother hmem

theorem request_ok_iff {request : UnitRequest} :
    seen.request limits eligible request = .ok seen' ↔ Good limits eligible request ∧
      request.id ∉ seen.ids ∧ request.members.toList.Nodup ∧ (∀ entity ∈ request.members.toList,
        entity ∉ seen.members) ∧
      seen' = ⟨seen.ids.insert request.id,
        request.members.toList.foldl ExtTreeSet.insert seen.members⟩ := by
  simp only [Seen.request, bind_eq_ok, require_eq_ok, member_loop_ok_iff, exists_const]
  constructor
  · rintro ⟨⟨hwire, hperiod, hperiod_le, hage, hid, hinhabited⟩, hgroup, hall, hnodup, hnew, rfl⟩
    exact ⟨⟨hwire, hperiod, hperiod_le, hage, hinhabited, hgroup, hall⟩,
      by rwa [ExtTreeSet.mem_iff_contains], hnodup, hnew, rfl⟩
  · rintro ⟨hgood, hid, hnodup, hnew, rfl⟩
    exact ⟨⟨hgood.wire, hgood.period, hgood.period_le, hgood.age_le,
      by rwa [ExtTreeSet.mem_iff_contains] at hid, hgood.inhabited⟩, hgood.group, hgood.authorized,
      hnodup, hnew, rfl⟩

theorem request_loop_ok_iff {requests : List UnitRequest} :
    loop (Seen.request limits eligible) seen requests = .ok seen' ↔ Valid limits eligible requests ∧
      (∀ request ∈ requests, request.id ∉ seen.ids) ∧
      (∀ entity ∈ requests.flatMap (·.members.toList), entity ∉ seen.members) ∧
      seen' = ⟨(requests.map (·.id)).foldl ExtTreeSet.insert seen.ids,
        (requests.flatMap (·.members.toList)).foldl ExtTreeSet.insert seen.members⟩ := by
  induction requests generalizing seen with
  | nil => simp [loop, @eq_comm _ seen', Valid.mk]
  | cons request requests ih =>
    simp only [loop, bind_eq_ok, request_ok_iff, ih, List.flatMap_cons, List.map_cons,
      List.foldl_cons, List.foldl_append]
    constructor
    · rintro ⟨-, ⟨hgood, hid, hnodup, hfresh, rfl⟩, hvalid, hids, hmembers, rfl⟩
      simp only [mem_set_insert, not_or] at hids
      simp only [mem_foldl_insert, not_or] at hmembers
      refine ⟨⟨List.forall_mem_cons.mpr ⟨hgood, hvalid.good⟩, ?_, ?_⟩, ?_, ?_, rfl⟩
      · refine List.nodup_cons.mpr ⟨fun hmem => ?_, hvalid.ids⟩
        obtain ⟨other, hother, heq⟩ := List.mem_map.mp hmem
        exact (hids other hother).1 heq
      · refine List.Nodup.append hnodup hvalid.members fun entity hentity hlater => ?_
        exact (hmembers entity hlater).1 hentity
      · exact List.forall_mem_cons.mpr ⟨hid, fun other hother => (hids other hother).2⟩
      · intro entity hentity
        rcases List.mem_append.mp hentity with hentity | hentity
        · exact hfresh entity hentity
        · exact (hmembers entity hentity).2
    · rintro ⟨hvalid, hids, hmembers, rfl⟩
      obtain ⟨hgood, hgoods⟩ := List.forall_mem_cons.mp hvalid.good
      obtain ⟨hid, hids⟩ := List.forall_mem_cons.mp hids
      obtain ⟨hne, hnodup⟩ := List.nodup_cons.mp hvalid.ids
      obtain ⟨hown, hrest, hdisjoint⟩ := List.nodup_append'.mp hvalid.members
      refine ⟨_, ⟨hgood, hid, hown,
        fun entity hentity => hmembers entity (List.mem_append_left _ hentity), rfl⟩,
        ⟨hgoods, hnodup, hrest⟩, fun other hother hmem => ?_, fun entity hentity hmem => ?_, rfl⟩
      · rcases (mem_set_insert _ _ _).mp hmem with heq | hmem
        · exact hne (List.mem_map.mpr ⟨other, hother, heq⟩)
        · exact hids other hother hmem
      · rcases (mem_foldl_insert _ _ _).mp hmem with hmem | hmem
        · exact hdisjoint hmem hentity
        · exact hmembers entity (List.mem_append_right _ hentity) hmem

end Seen

/-! ### The state that is committed -/

namespace Scheduler
variable {scheduler : Scheduler} {eligible : Interest.EligibleSet}
  {requests requests' : List UnitRequest} {now serial : ℕ}
  {transport : TransportBudget} {seen : Seen}

/-- What a schedule has checked. -/
structure Checked (scheduler : Scheduler) (eligible : Interest.EligibleSet)
    (requests : List UnitRequest) (now : ℕ) (seen : Seen) (serial : ℕ) : Prop where
  connection : eligible.connection = scheduler.connection
  now : scheduler.now ≤ now
  tick : scheduler.tick ≤ eligible.tick
  world : scheduler.worldRevision ≤ eligible.worldRevision
  policy : scheduler.policyRevision ≤ eligible.policyRevision
  units : requests.length ≤ scheduler.limits.units
  valid : Valid scheduler.limits eligible requests
  seen : seen = ⟨(requests.map (·.id)).foldl ExtTreeSet.insert ∅,
    (requests.flatMap (·.members.toList)).foldl ExtTreeSet.insert ∅⟩
  serial : serial = scheduler.serial + 1
  serial_word : scheduler.serial + 1 ≤ wordMax 64

/-- **Inversion of the checks.** -/
theorem validate_ok_iff :
    scheduler.validate eligible requests now = .ok (seen, serial) ↔
      Checked scheduler eligible requests now seen serial := by
  simp only [validate, bind_eq_ok, map_eq_ok, require_eq_ok, obtainOr_eq_ok,
    Seen.request_loop_ok_iff, checkedAdd_eq_some, exists_const, Prod.mk.injEq]
  constructor
  · rintro ⟨hconnection, ⟨hnow, htick, hworld, hpolicy⟩, hunits, seen, ⟨hvalid, -, -, rfl⟩, serial,
      ⟨rfl, hword⟩, rfl, rfl⟩
    exact ⟨hconnection, hnow, htick, hworld, hpolicy, hunits, hvalid, rfl, rfl, hword⟩
  · intro h
    exact ⟨h.connection, ⟨h.now, h.tick, h.world, h.policy⟩, h.units, seen,
      ⟨h.valid, fun _ _ => ExtTreeSet.not_mem_empty, fun _ _ => ExtTreeSet.not_mem_empty,
        h.seen⟩, serial,
      ⟨h.serial, h.serial_word⟩, rfl, rfl⟩

theorem Checked.mem_ids (h : Checked scheduler eligible requests now seen serial) (id : UnitId) :
    id ∈ seen.ids ↔ id ∈ requests.map (·.id) := by
  rw [h.seen, mem_foldl_insert, or_iff_left ExtTreeSet.not_mem_empty]

theorem lookup_foldl_insertIfNew (h : History) (history : ExtTreeMap UnitId History) (id : UnitId) :
    (requests.foldl (fun history request => history.insertIfNew request.id h) history)[id]? =
      if id ∈ requests.map (·.id) then some (history[id]?.getD h) else history[id]? := by
  induction requests generalizing history with
  | nil => simp
  | cons request requests ih =>
    rw [List.foldl_cons, ih, List.map_cons, ExtTreeMap.getElem?_insertIfNew]
    simp only [Std.compare_eq_iff_eq]
    by_cases hid : request.id = id
    · subst hid
      cases hlookup : history[request.id]? with
      | none => simp [ExtTreeMap.mem_iff_isSome_getElem?, hlookup]
      | some old => simp [ExtTreeMap.mem_iff_isSome_getElem?, hlookup]
    · simp [hid, Ne.symm hid]

/-- The history of a state that a schedule commits. -/
theorem Checked.lookup_history (h : Checked scheduler eligible requests now seen serial)
    (id : UnitId) :
    (scheduler.advance eligible requests now seen serial).history[id]? =
      if id ∈ requests.map (·.id) then some (scheduler.history[id]?.getD ⟨eligible.tick, none⟩)
        else none := by
  have hfilter : (scheduler.history.filter fun id _ => seen.ids.contains id)[id]? =
      if id ∈ requests.map (·.id) then scheduler.history[id]? else none := by
    rw [ExtTreeMap.getElem?_filter']
    have hcontains : seen.ids.contains id = decide (id ∈ requests.map (·.id)) := by
      rw [Bool.eq_iff_iff, ← ExtTreeSet.mem_iff_contains, h.mem_ids, decide_eq_true_iff]
    rw [hcontains]
    cases scheduler.history[id]? with
    | none => simp
    | some h => by_cases hid : id ∈ requests.map (·.id) <;> simp [hid]
  rw [advance, lookup_foldl_insertIfNew, hfilter]
  split_ifs <;> rfl

/-! ### What is due -/

/-- Whether the history of a request is there and not later than the tick. -/
def dated (scheduler : Scheduler) (request : UnitRequest) : Bool :=
  scheduler.history[request.id]?.any fun h => h.lastTransmitted.getD h.firstDue ≤ scheduler.tick

def ageOf (scheduler : Scheduler) (request : UnitRequest) : ℕ :=
  scheduler.tick - scheduler.history[request.id]?.elim 0 fun h => h.lastTransmitted.getD h.firstDue

/-- Never transmitted, or not within the period. -/
def isDue (scheduler : Scheduler) (request : UnitRequest) : Bool :=
  !(scheduler.history[request.id]?.any (·.lastTransmitted.isSome) &&
    scheduler.ageOf request < request.cadence.periodTicks)

def feasible (scheduler : Scheduler) (transport : TransportBudget) (request : UnitRequest) : Bool :=
  request.wireBytes ≤ scheduler.limits.burstBytes && request.wireBytes ≤
    transport.maximumAtomicWireBytes

def dueOf (scheduler : Scheduler) (transport : TransportBudget) (request : UnitRequest) : Due where
  request
  age := scheduler.ageOf request
  score := min (scheduler.ageOf request) scheduler.limits.maximumAccumulatedAgeTicks +
    request.cadence.priority
  infeasible := !scheduler.feasible transport request

def dueList (scheduler : Scheduler) (transport : TransportBudget) (requests : List UnitRequest) :
    List Due :=
  (requests.filter scheduler.isDue).map (scheduler.dueOf transport)

/-- One request in the metrics. -/
def note (scheduler : Scheduler) (transport : TransportBudget) (metrics : ScheduleMetrics)
    (request : UnitRequest) : ScheduleMetrics :=
  { metrics with
    maximumUpdateAgeTicks := max metrics.maximumUpdateAgeTicks (scheduler.ageOf request)
    dueUnits := metrics.dueUnits + (scheduler.isDue request).toNat
    infeasibleUnits :=
      metrics.infeasibleUnits + (scheduler.isDue request &&
        !scheduler.feasible transport request).toNat }

theorem collect_eq (sofar : List Due × ScheduleMetrics) (request : UnitRequest) :
    scheduler.collect transport sofar request =
      if scheduler.dated request then
        some (sofar.1 ++ scheduler.dueList transport [request],
          scheduler.note transport sofar.2 request)
      else none := by
  unfold collect dated
  cases hhistory : scheduler.history[request.id]? with
  | none => rfl
  | some h =>
    simp only [Option.bind_some, Option.any_some, decide_eq_true_iff]
    by_cases hdated : h.lastTransmitted.getD h.firstDue ≤ scheduler.tick
    · have hage : scheduler.ageOf request = scheduler.tick - h.lastTransmitted.getD h.firstDue := by
        rw [ageOf, hhistory, Option.elim_some]
      have hfeasible : scheduler.feasible transport request =
          !(scheduler.limits.burstBytes < request.wireBytes ||
            transport.maximumAtomicWireBytes < request.wireBytes : Bool) := by
        simp [feasible, ← decide_not]
      rw [if_pos hdated, checkedSub, if_pos hdated, Option.map_some, ← hage]
      by_cases hrecent : h.lastTransmitted.isSome = true ∧ scheduler.ageOf request <
        request.cadence.periodTicks
      · have hdue : scheduler.isDue request = false := by
          simp [isDue, hhistory, hrecent]
        rw [if_pos hrecent, dueList, List.filter_cons_of_neg (by simp [hdue])]
        simp [note, hdue]
      · have hdue : scheduler.isDue request = true := by
          rw [isDue, hhistory, Option.any_some, Bool.not_eq_true', Bool.eq_false_iff, ne_eq,
            Bool.and_eq_true, decide_eq_true_iff]
          exact hrecent
        rw [if_neg hrecent, dueList, List.filter_cons_of_pos hdue]
        simp [note, hdue, dueOf, hfeasible]
    · rw [if_neg hdated, checkedSub, if_neg hdated, Option.map_none]

/-- **The requests that are due**, and the metrics, one request at a time. -/
theorem collect_fold (sofar : List Due × ScheduleMetrics) :
    requests.foldlM (scheduler.collect transport) sofar =
      if requests.all scheduler.dated then
        some (sofar.1 ++ scheduler.dueList transport requests,
          requests.foldl (scheduler.note transport) sofar.2)
      else none := by
  induction requests generalizing sofar with
  | nil => simp [dueList]
  | cons request requests ih =>
    rw [List.foldlM_cons, collect_eq, List.all_cons]
    by_cases hdated : scheduler.dated request
    · rw [if_pos hdated, hdated, Bool.true_and]
      have happend : scheduler.dueList transport (request :: requests) =
          scheduler.dueList transport [request] ++ scheduler.dueList transport requests := by
        rw [dueList, dueList, dueList, ← List.map_append, ← List.filter_append,
          List.singleton_append]
      rw [happend, ← List.append_assoc]
      exact ih _
    · rw [if_neg hdated, Bool.eq_false_iff.mpr hdated]
      rfl

/-! ### What is selected -/

end Scheduler

namespace Selection

def wire (due : Due) : ℕ := due.request.wireBytes

/-- The test of the pass over critical units. -/
def takesCritical (budget reserve : ℕ) (taken : List Due) (due : Due) : Bool :=
  !due.infeasible && due.request.cadence.critical && load wire taken < reserve &&
    wire due ≤ budget - load wire taken

/-- The test of the pass over everything else. -/
def takesRemaining (budget : ℕ) (taken : List Due) (due : Due) : Bool :=
  !due.infeasible && !taken.any (·.request.id = due.request.id) && wire due ≤
    budget - load wire taken

/-- The selection of some due units. -/
def ofTaken (taken : List Due) : Selection :=
  ⟨load wire taken, (taken.map (·.request.id)).foldl ExtTreeSet.insert ∅, taken.map (·.request)⟩

theorem push_ofTaken (taken : List Due) (due : Due) :
    (ofTaken taken).push due.request = ofTaken (taken ++ [due]) := by
  simp [push, ofTaken, load_append, load_singleton, wire]

theorem contains_ofTaken (taken : List Due) (id : UnitId) :
    (ofTaken taken).ids.contains id = taken.any (·.request.id = id) := by
  rw [Bool.eq_iff_iff, ← ExtTreeSet.mem_iff_contains, ofTaken, mem_foldl_insert]
  simp

theorem critical_eq (budget reserve : ℕ) (taken : List Due) (due : Due) :
    (ofTaken taken).critical budget reserve due =
      ofTaken (if takesCritical budget reserve taken due then taken ++ [due] else taken) := by
  have htest : takesCritical budget reserve taken due = true ↔
      (!due.infeasible) = true ∧ due.request.cadence.critical = true ∧
        (ofTaken taken).used < reserve ∧ due.request.wireBytes ≤ budget - (ofTaken taken).used := by
    simp only [takesCritical, Bool.and_eq_true, decide_eq_true_iff, and_assoc]
    rfl
  rw [critical, push_ofTaken]
  by_cases h : takesCritical budget reserve taken due = true
  · rw [if_pos (htest.mp h), if_pos h]
  · rw [if_neg fun hcond => h (htest.mpr hcond), if_neg h]

theorem remaining_eq (budget : ℕ) (taken : List Due) (due : Due) :
    (ofTaken taken).remaining budget due =
      ofTaken (if takesRemaining budget taken due then taken ++ [due] else taken) := by
  have htest : takesRemaining budget taken due = true ↔
      (!due.infeasible) = true ∧ (!(ofTaken taken).ids.contains due.request.id) = true ∧
        due.request.wireBytes ≤ budget - (ofTaken taken).used := by
    rw [contains_ofTaken]
    simp only [takesRemaining, Bool.and_eq_true, decide_eq_true_iff, and_assoc]
    rfl
  rw [remaining, push_ofTaken]
  by_cases h : takesRemaining budget taken due = true
  · rw [if_pos (htest.mp h), if_pos h]
  · rw [if_neg fun hcond => h (htest.mpr hcond), if_neg h]

theorem foldl_ofTaken {step : Selection → Due → Selection} {ok : List Due → Due → Bool}
    (hstep : ∀ taken due, step (ofTaken taken) due = ofTaken (if ok taken due then taken ++ [due]
      else taken))
    (taken due : List Due) : due.foldl step (ofTaken taken) = ofTaken (greedy ok taken due) := by
  induction due generalizing taken with
  | nil => rfl
  | cons first due ih => rw [List.foldl_cons, hstep, ih, greedy_cons]

end Selection

namespace Scheduler
variable {scheduler : Scheduler} {eligible : Interest.EligibleSet}
  {requests requests' : List UnitRequest} {now serial : ℕ}
  {transport : TransportBudget} {seen : Seen}

def reserve (scheduler : Scheduler) (budget : ℕ) : ℕ :=
  budget * scheduler.limits.criticalReserve / 10000

/-- The critical units that the first pass takes. -/
def firstPass (scheduler : Scheduler) (budget : ℕ) (due : List Due) : List Due :=
  greedy (Selection.takesCritical budget (scheduler.reserve budget)) [] due

/-- The units that the two passes take. -/
def bothPasses (scheduler : Scheduler) (budget : ℕ) (due : List Due) : List Due :=
  greedy (Selection.takesRemaining budget) (scheduler.firstPass budget due) due

/-- **The selection is two greedy passes.** -/
theorem select_eq (budget : ℕ) (due : List Due) :
    scheduler.select budget due = Selection.ofTaken (scheduler.bothPasses budget due) := by
  rw [select, show (⟨0, ∅, []⟩ : Selection) = Selection.ofTaken [] from rfl,
    Selection.foldl_ofTaken (Selection.critical_eq budget _),
    Selection.foldl_ofTaken (Selection.remaining_eq budget)]
  rfl

/-- The due units in the order they are served. -/
def queue (scheduler : Scheduler) (transport : TransportBudget) (requests : List UnitRequest) :
    List Due :=
  (scheduler.dueList transport requests).insertionSort Due.before

/-- The plan of a committed state whose requests all have a history. -/
theorem plan_eq :
    scheduler.plan eligible requests transport =
      if requests.all scheduler.dated then
        some ⟨eligible, scheduler.serial,
          (scheduler.bothPasses (scheduler.budget transport)
            (scheduler.queue transport requests)).map (·.request),
          { (scheduler.queue transport requests).foldl
              (Selection.ofTaken (scheduler.bothPasses (scheduler.budget transport)
                (scheduler.queue transport requests))).defer
              (requests.foldl (scheduler.note transport) .zero) with
            selectedUnits :=
              (scheduler.bothPasses (scheduler.budget transport)
                (scheduler.queue transport requests)).length
            selectedWireBytes :=
              load Selection.wire
                (scheduler.bothPasses (scheduler.budget transport)
                  (scheduler.queue transport requests)) }⟩
      else none := by
  rw [plan, collect_fold]
  split_ifs
  · simp only [Option.map_some, List.nil_append, select_eq, queue]
    simp [Selection.ofTaken]
  · rfl

end Scheduler
end Net.Scheduling
