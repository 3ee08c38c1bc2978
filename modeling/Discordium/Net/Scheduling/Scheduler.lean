import Discordium.Net.Interest.Gather

/-!
# Net — Scheduling — Scheduler

The bounded scheduler of `scheduling.rs`.  Times are nanoseconds and tokens are nanobytes, so that a
refill has no fraction to lose.  A schedule checks everything before it changes anything; a
transmission spends the tokens of what the transport accepts.  The unwrapped look-ups and the
subtractions that must not underflow answer `panic` where they fail.

The callback of `transmit` is the number of the attempt and the unit, which is all that an answer of
it can depend on within one call.
-/

namespace Net.Scheduling
open Lib Interest
open Std (ExtTreeMap ExtTreeSet)

inductive UnitId where
  | entity (id : EntityId)
  | predictionGroup (group : ℕ)
  deriving DecidableEq

namespace UnitId

def path : UnitId → List ℕ
  | .entity id => 0 :: id.path
  | .predictionGroup group => [1, group]

theorem path_injective : Function.Injective path := by
  rintro (⟨id⟩ | ⟨group⟩) (⟨id'⟩ | ⟨group'⟩) h
  · rw [EntityId.path_injective (List.cons.inj h).2]
  · cases h
  · cases h
  · simpa [path] using h

instance : Ord UnitId := ⟨compareOn path⟩

instance : Std.TransOrd UnitId := inferInstanceAs (Std.TransCmp (compareOn path))

instance : Std.LawfulEqOrd UnitId := lawfulEqCmp_compareOn path_injective

end UnitId

structure Cadence where
  periodTicks : ℕ
  maximumAgeTicks : ℕ
  priority : ℕ
  critical : Bool
  deriving DecidableEq

structure SchedulerLimits where
  units : ℕ
  bytesPerSecond : ℕ
  burstBytes : ℕ
  /-- In basis points. -/
  criticalReserve : ℕ
  maximumAccumulatedAgeTicks : ℕ
  /-- A `usize`. -/
  burst_word : burstBytes ≤ wordMax 64

/-- `SchedulerLimits::default()`. -/
def SchedulerLimits.default : SchedulerLimits where
  units := 4096
  bytesPerSecond := 60000
  burstBytes := 16384
  criticalReserve := 4000
  maximumAccumulatedAgeTicks := 65535
  burst_word := by decide

structure TransportBudget where
  availableWireBytes : ℕ
  maximumAtomicWireBytes : ℕ

inductive ScheduleError where
  | invalidConfiguration
  | invalidRequest
  | unauthorized
  | capacity
  | stale
  deriving DecidableEq

/-! ### Requests -/

structure UnitRequest where
  id : UnitId
  members : ExtTreeSet EntityId
  wireBytes : ℕ
  cadence : Cadence
  deriving DecidableEq

def UnitRequest.entity (entity : EntityId) (wireBytes : ℕ) (cadence : Cadence) : UnitRequest :=
  ⟨.entity entity, .ofList [entity] compare, wireBytes, cadence⟩

/-- The units and the members of the requests so far. -/
structure Seen where
  ids : ExtTreeSet UnitId
  members : ExtTreeSet EntityId

def Seen.member (eligible : Interest.EligibleSet) (seen : Seen) (entity : EntityId) :
    Except ScheduleError Seen :=
  (require .unauthorized (eligible.entries.contains entity)).bind fun _ =>
    (require .invalidRequest ¬seen.members.contains entity).map fun _ =>
      { seen with members := seen.members.insert entity }

def Seen.request (limits : SchedulerLimits) (eligible : Interest.EligibleSet) (seen : Seen)
    (request : UnitRequest) : Except ScheduleError Seen :=
  (require .invalidRequest (request.wireBytes ≠ 0 ∧ request.cadence.periodTicks ≠ 0 ∧
      request.cadence.periodTicks ≤ request.cadence.maximumAgeTicks ∧
      request.cadence.maximumAgeTicks ≤ limits.maximumAccumulatedAgeTicks ∧
      ¬seen.ids.contains request.id ∧ ¬request.members.isEmpty)).bind fun _ =>
    (require .unauthorized
        (request.id matches .predictionGroup _ → eligible.prediction =
          .admitted request.members)).bind fun _ =>
      loop (Seen.member eligible) { seen with ids := seen.ids.insert request.id }
        request.members.toList

/-! ### Plans -/

structure ScheduleMetrics where
  dueUnits : ℕ
  selectedUnits : ℕ
  selectedWireBytes : ℕ
  deferredUnits : ℕ
  infeasibleUnits : ℕ
  deadlineMisses : ℕ
  criticalDeadlineMisses : ℕ
  maximumUpdateAgeTicks : ℕ
  deriving DecidableEq

/-- `ScheduleMetrics::default()`. -/
def ScheduleMetrics.zero : ScheduleMetrics := ⟨0, 0, 0, 0, 0, 0, 0, 0⟩

structure History where
  firstDue : ℕ
  lastTransmitted : Option ℕ

structure SchedulePlan where
  eligible : Interest.EligibleSet
  serial : ℕ
  selected : List UnitRequest
  metrics : ScheduleMetrics
  deriving DecidableEq

structure TransmitMetrics where
  acceptedUnits : ℕ
  acceptedWireBytes : ℕ
  rejectedUnits : ℕ

structure Scheduler where
  connection : ℕ
  limits : SchedulerLimits
  history : ExtTreeMap UnitId History
  now : ℕ
  tick : ℕ
  worldRevision : ℕ
  policyRevision : ℕ
  serial : ℕ
  tokens : ℕ

/-- A request that is due. -/
structure Due where
  request : UnitRequest
  age : ℕ
  score : ℕ
  infeasible : Bool

namespace Due

def overdue (due : Due) : Bool := due.request.cadence.maximumAgeTicks ≤ due.age

/-- The order in which what is due is served. -/
def order (a b : Due) : Ordering :=
  (((compare b.overdue a.overdue).then
      (compare (b.age - b.request.cadence.maximumAgeTicks)
        (a.age - a.request.cadence.maximumAgeTicks))).then
    (compare b.score a.score)).then (compare a.request.id b.request.id)

def before (a b : Due) : Prop := a.order b ≠ .gt

instance : DecidableRel before := fun a b => inferInstanceAs (Decidable (a.order b ≠ .gt))

end Due

/-- The units selected so far. -/
structure Selection where
  used : ℕ
  ids : ExtTreeSet UnitId
  selected : List UnitRequest

namespace Selection

def push (selection : Selection) (request : UnitRequest) : Selection :=
  ⟨selection.used + request.wireBytes, selection.ids.insert request.id,
    selection.selected ++ [request]⟩

/-- The pass over critical units, up to the reserve. -/
def critical (budget reserve : ℕ) (selection : Selection) (due : Due) : Selection :=
  if !due.infeasible ∧ due.request.cadence.critical ∧ selection.used < reserve ∧
      due.request.wireBytes ≤ budget - selection.used then selection.push due.request
  else selection

/-- The pass over everything else. -/
def remaining (budget : ℕ) (selection : Selection) (due : Due) : Selection :=
  if !due.infeasible ∧ !selection.ids.contains due.request.id ∧
      due.request.wireBytes ≤ budget - selection.used then selection.push due.request
  else selection

/-- What is deferred, in the metrics. -/
def defer (selection : Selection) (metrics : ScheduleMetrics) (due : Due) : ScheduleMetrics :=
  if selection.ids.contains due.request.id then metrics
  else
    { metrics with
      deferredUnits := metrics.deferredUnits + 1
      deadlineMisses := metrics.deadlineMisses + due.overdue.toNat
      criticalDeadlineMisses :=
        metrics.criticalDeadlineMisses + (due.overdue && due.request.cadence.critical).toNat }

end Selection

namespace Scheduler

def new (connection : ℕ) (limits : SchedulerLimits) : Except ScheduleError Scheduler :=
  if limits.units = 0 ∨ limits.bytesPerSecond = 0 ∨ limits.burstBytes = 0 ∨
    10000 < limits.criticalReserve ∨ limits.maximumAccumulatedAgeTicks = 0 then
      .error .invalidConfiguration
  else
    .ok { connection, limits, history := ∅, now := 0, tick := 0, worldRevision := 0
          policyRevision := 0, serial := 0, tokens := limits.burstBytes * 1000000000 }

/-- The tokens at a later time; the arithmetic saturates at 128 bits. -/
def refilled (scheduler : Scheduler) (now : ℕ) : ℕ :=
  min (saturatingAdd 128 scheduler.tokens
      (saturatingMul 128 (now - scheduler.now) scheduler.limits.bytesPerSecond))
    (scheduler.limits.burstBytes * 1000000000)

/-- The checks of a schedule, and the serial it takes. -/
def validate (scheduler : Scheduler) (eligible : Interest.EligibleSet) (requests : List UnitRequest)
    (now : ℕ) : Except ScheduleError (Seen × ℕ) :=
  (require .unauthorized (eligible.connection = scheduler.connection)).bind fun _ =>
    (require .stale (scheduler.now ≤ now ∧ scheduler.tick ≤ eligible.tick ∧
        scheduler.worldRevision ≤ eligible.worldRevision ∧
        scheduler.policyRevision ≤ eligible.policyRevision)).bind fun _ =>
      (require .capacity (requests.length ≤ scheduler.limits.units)).bind fun _ =>
        (loop (Seen.request scheduler.limits eligible) ⟨∅, ∅⟩ requests).bind fun seen =>
          (obtainOr .capacity (checkedAdd 64 scheduler.serial 1)).map fun serial => (seen, serial)

/-- The state that a schedule commits. -/
def advance (scheduler : Scheduler) (eligible : Interest.EligibleSet)
    (requests : List UnitRequest) (now : ℕ) (seen : Seen) (serial : ℕ) : Scheduler :=
  { scheduler with
    tokens := scheduler.refilled now
    now
    tick := eligible.tick
    worldRevision := eligible.worldRevision
    policyRevision := eligible.policyRevision
    serial
    history := requests.foldl (fun history request => history.insertIfNew request.id
      ⟨eligible.tick, none⟩)
      (scheduler.history.filter fun id _ => seen.ids.contains id) }

/-- One request is looked at; nothing where its history is missing or later than the tick. -/
def collect (scheduler : Scheduler) (transport : TransportBudget)
    (sofar : List Due × ScheduleMetrics) (request : UnitRequest) :
    Option (List Due × ScheduleMetrics) :=
  scheduler.history[request.id]?.bind fun h =>
    (checkedSub scheduler.tick (h.lastTransmitted.getD h.firstDue)).map fun age =>
      let metrics := { sofar.2 with maximumUpdateAgeTicks := max sofar.2.maximumUpdateAgeTicks age }
      if h.lastTransmitted.isSome ∧ age < request.cadence.periodTicks then (sofar.1, metrics)
      else
        let infeasible :=
          scheduler.limits.burstBytes < request.wireBytes || transport.maximumAtomicWireBytes <
            request.wireBytes
        let score := min age scheduler.limits.maximumAccumulatedAgeTicks + request.cadence.priority
        (sofar.1 ++ [⟨request, age, score, infeasible⟩],
          { metrics with
            dueUnits := metrics.dueUnits + 1
            infeasibleUnits := metrics.infeasibleUnits + infeasible.toNat })

/-- The units that fit, in the order they are served. -/
def select (scheduler : Scheduler) (budget : ℕ) (due : List Due) : Selection :=
  let reserve := budget * scheduler.limits.criticalReserve / 10000
  due.foldl (Selection.remaining budget) (due.foldl (Selection.critical budget reserve) ⟨0, ∅, []⟩)

def budget (scheduler : Scheduler) (transport : TransportBudget) : ℕ :=
  min transport.availableWireBytes (scheduler.tokens / 1000000000)

/-- The plan of a state that a schedule has committed. -/
def plan (scheduler : Scheduler) (eligible : Interest.EligibleSet) (requests : List UnitRequest)
    (transport : TransportBudget) : Option SchedulePlan :=
  (requests.foldlM (scheduler.collect transport) ([], .zero)).map fun (due, metrics) =>
    let due := due.insertionSort Due.before
    let selection := scheduler.select (scheduler.budget transport) due
    ⟨eligible, scheduler.serial, selection.selected,
      { due.foldl selection.defer metrics with
        selectedUnits := selection.selected.length, selectedWireBytes := selection.used }⟩

def schedule (scheduler : Scheduler) (eligible : Interest.EligibleSet)
    (requests : List UnitRequest) (now : ℕ) (transport : TransportBudget) :
    Scheduler × Answer ScheduleError SchedulePlan :=
  match scheduler.validate eligible requests now with
  | .error error => (scheduler, .err error)
  | .ok (seen, serial) =>
    let scheduler := scheduler.advance eligible requests now seen serial
    match scheduler.plan eligible requests transport with
    | none => (scheduler, .panic)
    | some plan => (scheduler, .ok plan)

/-- One attempt to send; nothing where the tokens run out or the unit has no history. -/
def attempt (tick : ℕ) (send : ℕ → UnitRequest → Bool) (sofar : Scheduler × TransmitMetrics)
    (unit : UnitRequest × ℕ) : Option (Scheduler × TransmitMetrics) :=
  let (scheduler, metrics) := sofar
  let (request, n) := unit
  if send n request then
    (checkedSub scheduler.tokens (request.wireBytes * 1000000000)).bind fun tokens =>
      scheduler.history[request.id]?.map fun h =>
        ({ scheduler with
            tokens
            history := scheduler.history.insert request.id
              { h with lastTransmitted := some tick } },
          { metrics with
            acceptedUnits := metrics.acceptedUnits + 1
            acceptedWireBytes := metrics.acceptedWireBytes + request.wireBytes })
  else some (scheduler, { metrics with rejectedUnits := metrics.rejectedUnits + 1 })

def transmit (scheduler : Scheduler) (plan : SchedulePlan) (worldRevision policyRevision : ℕ)
    (send : ℕ → UnitRequest → Bool) : Scheduler × Answer ScheduleError TransmitMetrics :=
  if plan.serial ≠ scheduler.serial ∨ !plan.eligible.isCurrent worldRevision policyRevision then
    (scheduler, .err .stale)
  else
    match checkedAdd 64 scheduler.serial 1 with
    | none => (scheduler, .err .capacity)
    | some serial =>
      match plan.selected.zipIdx.foldlM (attempt plan.eligible.tick send)
          ({ scheduler with serial }, ⟨0, 0, 0⟩) with
      | none => ({ scheduler with serial }, .panic)
      | some (scheduler, metrics) => (scheduler, .ok metrics)

end Scheduler
end Net.Scheduling
