import Discordium.Net.Interest.Graph

/-!
# Net — Interest — Gather

The gathering of what one connection may see, as `interest/gather.rs` has it.  Candidates come from
the reverse indices only; every candidate is then checked against the policy and, where it came from
a cell, against the exact distance.  A prediction group is closed under declared dependencies and is
admitted as a whole or not at all.

Distances are compared by their squares, `within_iff_hypot` says that this is the comparison of the
source on exact numbers.  The look-up of a candidate's registration panics where there is none.
-/

namespace Net.Interest
open Lib
open Std (ExtTreeMap ExtTreeSet)

inductive GatherError where
  | unknownConnection
  | stalePolicy
  | candidateLimit
  | candidateVisitLimit
  | previousEligibilityLimit
  deriving DecidableEq

inductive DependencyError where
  | missing
  | denied
  | incompleteRepresentation
  | entityLimit
  | edgeLimit
  deriving DecidableEq

inductive PredictionAdmission where
  | notRequested
  | admitted (members : ExtTreeSet EntityId)
  | denied (error : DependencyError)
  deriving DecidableEq

structure EligibleEntry where
  entity : EntityId
  representation : RepresentationGrant
  reasons : EligibilityReasons
  stateVersion : ℕ
  sceneRevision : ℕ
  deriving DecidableEq

structure EligibleSet where
  connection : ℕ
  worldRevision : ℕ
  policyRevision : ℕ
  frame : ℕ
  tick : ℕ
  entries : ExtTreeMap EntityId EligibleEntry
  prediction : PredictionAdmission
  candidateVisits : ℕ
  candidates : ℕ
  deriving DecidableEq

def EligibleSet.isCurrent (set : EligibleSet) (worldRevision policyRevision : ℕ) : Bool :=
  set.worldRevision = worldRevision && set.policyRevision = policyRevision

def entry (entity : EntityRegistration) (representation : RepresentationGrant)
    (reasons : EligibilityReasons) : EligibleEntry :=
  ⟨entity.id, representation, reasons, entity.stateVersion, entity.sceneRevision⟩

/-- `permitted`: hard visibility, scene readiness, and then the policy. -/
def permitted (connection : ℕ) (view : ConnectionView) (entity : EntityRegistration)
    (policy : DisclosurePolicy) : Option RepresentationGrant :=
  let visible :=
    match entity.visibility with
    | .everyone => true
    | .owner owner => owner = connection
    | .semantic semantic => view.semanticGrants.contains semantic
    | .never => false
  if !visible || !view.readyScenes.contains entity.sceneRevision then none
  else (policy.representation connection entity).filter fun grant => grant.schemaId ≠ 0 &&
    grant.fields ≠ 0

/-! ### Distance -/

/-- `(p[0] - q[0]).hypot(p[1] - q[1]).hypot(p[2] - q[2]) <= radius`. -/
def Position.within (p q : Position) (radius : ℚ) : Bool :=
  0 ≤ radius && (p.x - q.x) ^ 2 + (p.y - q.y) ^ 2 + (p.z - q.z) ^ 2 ≤ radius ^ 2

theorem Position.within_iff_hypot (p q : Position) (radius : ℚ) :
    p.within q radius ↔
      √(√(((p.x - q.x : ℚ) : ℝ) ^ 2 + ((p.y - q.y : ℚ) : ℝ) ^ 2) ^ 2 + ((p.z - q.z : ℚ) : ℝ) ^ 2) ≤
        (radius : ℝ) := by
  rw [Real.sq_sqrt (by positivity), Real.sqrt_le_iff, Position.within, Bool.and_eq_true,
    decide_eq_true_iff, decide_eq_true_iff]
  exact and_congr (by exact_mod_cast Iff.rfl) (by exact_mod_cast Iff.rfl)

/-! ### Candidates -/

/-- The candidates so far, and the visits it took. -/
structure Gathering where
  candidates : ExtTreeMap EntityId EligibilityReasons
  visits : ℕ

def Gathering.add (limits : Limits) (reason : EligibilityReasons) (gathering : Gathering)
    (id : EntityId) : Except GatherError Gathering :=
  if limits.maxCandidateVisits ≤ gathering.visits then .error .candidateVisitLimit
  else
    match gathering.candidates[id]? with
    | some reasons => .ok ⟨gathering.candidates.insert id (reasons.insert reason),
        gathering.visits + 1⟩
    | none =>
      if limits.maxCandidates ≤ gathering.candidates.size then .error .candidateLimit
      else .ok ⟨gathering.candidates.insert id reason, gathering.visits + 1⟩

def Gathering.addAll (limits : Limits) (reason : EligibilityReasons) (gathering : Gathering)
    (ids : ExtTreeSet EntityId) : Except GatherError Gathering :=
  loop (Gathering.add limits reason) gathering ids.toList

/-- The four sources of candidates. -/
def Graph.candidates (graph : Graph) (connection : ℕ) (view : ConnectionView) :
    Except GatherError Gathering :=
  (Gathering.addAll graph.limits .global ⟨∅, 0⟩ graph.globals).bind fun gathering =>
    (gathering.addAll graph.limits .owner (members graph.owners connection)).bind fun gathering =>
      (loop (fun gathering semantic => gathering.addAll graph.limits .semantic
        (members graph.semantics semantic))
          gathering view.semanticGrants.toList).bind fun gathering =>
        loop (fun gathering observer =>
            gathering.addAll graph.limits .spatial
              (members graph.cells (graph.cell observer.position.x observer.position.z)))
          gathering view.observers

/-- The distance up to which an entity reaches an observer. -/
def Graph.reach (graph : Graph) (entity : EntityRegistration) (previous : Bool) : ℚ :=
  entity.bounds.radius + entity.cullRadius + graph.limits.prefetch +
    if previous then graph.limits.leaveMargin else 0

def Graph.spatiallyEligible (graph : Graph) (entity : EntityRegistration) (view : ConnectionView)
    (previous : Bool) : Bool :=
  view.observers.any fun observer =>
    observer.sceneRevision = entity.sceneRevision &&
      entity.bounds.center.within observer.position (graph.reach entity previous)

/-- The entry of a registered candidate, if it gets one. -/
def Graph.eligible (graph : Graph) (connection : ℕ) (view : ConnectionView)
    (previous : ExtTreeSet EntityId) (policy : DisclosurePolicy) (id : EntityId)
    (reasons : EligibilityReasons) (entity : EntityRegistration) : Option EligibleEntry :=
  (permitted connection view entity policy).bind fun representation =>
    let reasons :=
      if reasons.contains .spatial &&
        !graph.spatiallyEligible entity view (previous.contains id) then
        reasons.withoutSpatial
      else reasons
    if reasons.isEmpty then none else some (entry entity representation reasons)

/-! ### Prediction groups -/

/-- The state of the closure loop of `required`. -/
structure Closing where
  pending : ExtTreeSet EntityId
  visited : ExtTreeMap EntityId EligibleEntry
  edges : ℕ

/-- One declared dependency. -/
def Closing.follow (limits : Limits) (connection : ℕ) (policy : DisclosurePolicy) (id : EntityId)
    (closing : Closing) (target : EntityId) : Except DependencyError Closing :=
  (require .edgeLimit (closing.edges < limits.maxDependencyEdges)).bind fun _ =>
    (require .denied (policy.permitsDependency connection id target)).bind fun _ =>
      if closing.visited.contains target || closing.pending.contains target then
        .ok { closing with edges := closing.edges + 1 }
      else
        (require .entityLimit (closing.visited.size + closing.pending.size <
          limits.maxRequired)).map fun _ =>
          { closing with pending := closing.pending.insert target, edges := closing.edges + 1 }

/-- The body of the loop, for the entity that was taken from the pending ones. -/
def Closing.visit (graph : Graph) (connection : ℕ) (view : ConnectionView)
    (policy : DisclosurePolicy) (closing : Closing) (id : EntityId) :
    Except DependencyError Closing :=
  (obtainOr .missing graph.entities[id]?).bind fun entity =>
    (obtainOr .denied (permitted connection view entity policy)).bind fun representation =>
      (require .incompleteRepresentation representation.predictionAllowed).bind fun _ =>
        loop (Closing.follow graph.limits connection policy id)
          { closing with
            pending := closing.pending.erase id
            visited := closing.visited.insert id (entry entity representation .required) }
          entity.dependencies.toList

/-- `while let Some(id) = pending.pop_first()`, for a number of rounds. -/
def Closing.rounds (graph : Graph) (connection : ℕ) (view : ConnectionView)
    (policy : DisclosurePolicy) :
    ℕ → Closing → Except DependencyError Closing
  | 0, closing => .ok closing
  | n + 1, closing =>
    match closing.pending.toList.head? with
    | none => .ok closing
    | some id =>
        (closing.visit graph connection view policy id).bind (rounds graph connection view policy n)

/-- `required`; the loop is over after as many rounds as there may be members. -/
def Graph.required (graph : Graph) (connection : ℕ) (view : ConnectionView)
    (roots : ExtTreeSet EntityId) (policy : DisclosurePolicy) :
    Except DependencyError (ExtTreeMap EntityId EligibleEntry) :=
  (require .entityLimit (roots.size ≤ graph.limits.maxRequired)).bind fun _ =>
    (Closing.rounds graph connection view policy graph.limits.maxRequired ⟨roots, ∅, 0⟩).map
      (·.visited)

def requireEntry (existing : Option EligibleEntry) (required : EligibleEntry) : EligibleEntry :=
  existing.elim required fun existing => { existing
    with reasons := existing.reasons.insert .required }

/-- The entries with the prediction group, where it is admitted. -/
def Graph.predict (graph : Graph) (connection : ℕ) (view : ConnectionView)
    (roots : ExtTreeSet EntityId) (policy : DisclosurePolicy)
    (entries : ExtTreeMap EntityId EligibleEntry) :
    ExtTreeMap EntityId EligibleEntry × PredictionAdmission :=
  if roots.isEmpty then (entries, .notRequested)
  else
    match graph.required connection view roots policy with
    | .error error => (entries, .denied error)
    | .ok required =>
      let additional := (required.keys.filter fun id => !entries.contains id).length
      if graph.limits.maxCandidates < entries.size + additional then (entries, .denied .entityLimit)
      else
        (required.foldl (fun entries id required =>
          entries.insert id (requireEntry entries[id]? required)) entries,
          .admitted (ExtTreeSet.ofList required.keys))

/-! ### Gathering -/

structure PreparedGraph where
  graph : Graph
  frame : ℕ
  tick : ℕ
  policyRevision : ℕ

namespace PreparedGraph

/-- The checks of a gathering, and its candidates. -/
def checked (prepared : PreparedGraph) (connection : ℕ) (previous : ExtTreeSet EntityId)
    (policy : DisclosurePolicy) : Except GatherError (ConnectionView × Gathering) :=
  (require .stalePolicy (policy.revision = prepared.policyRevision)).bind fun _ =>
    (obtainOr .unknownConnection prepared.graph.connections[connection]?).bind fun view =>
      (require .previousEligibilityLimit (previous.size ≤
        prepared.graph.limits.maxCandidates)).bind fun _ =>
        (prepared.graph.candidates connection view).map fun gathering => (view, gathering)

def gather (prepared : PreparedGraph) (connection : ℕ) (previous roots : ExtTreeSet EntityId)
    (policy : DisclosurePolicy) : Answer GatherError EligibleSet :=
  match prepared.checked connection previous policy with
  | .error error => .err error
  | .ok (view, gathering) =>
    let graph := prepared.graph
    if !gathering.candidates.keys.all graph.entities.contains then .panic
    else
      let entries := gathering.candidates.filterMap fun id reasons =>
        graph.entities[id]?.bind (graph.eligible connection view previous policy id reasons)
      let (entries, prediction) := graph.predict connection view roots policy entries
      if policy.revision ≠ prepared.policyRevision then .err .stalePolicy
      else
        .ok { connection, worldRevision := graph.worldRevision,
              policyRevision := prepared.policyRevision, frame := prepared.frame
              tick := prepared.tick, entries, prediction, candidateVisits := gathering.visits
              candidates := gathering.candidates.size }

end PreparedGraph
end Net.Interest
