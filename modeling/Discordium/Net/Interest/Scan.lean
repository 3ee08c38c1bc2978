import Discordium.Lib.Worklist
import Discordium.Net.Interest.Gather
import Discordium.Net.Interest.Indexed

/-!
# Net — Interest — Scan

What a gathering finds through the indices is what a scan of every registered entity finds.  Two
things make the difference between the two.  Spatial candidates come from one cell per observer, so
the footprint of an entity has to hold the cell of every position within its reach
(`corners_cover`).  And a prediction group is found by a worklist, whose rounds are bounded
(`required_ok`).

**Gathering is a scan** (`gather_eq_scan`).  On every graph that a run of calls reaches, a gathering
does not panic, and the entries of a successful one are those of the scan.
-/

namespace Net.Interest
open Lib Relation
open Std (ExtTreeMap ExtTreeSet)

/-! ### The scan -/

/-- A reason, where it applies. -/
def flag (applies : Bool) (reason : EligibilityReasons) : EligibilityReasons :=
  if applies then reason else ⟨0⟩

namespace Graph
variable (graph : Graph) (connection : ℕ) (view : ConnectionView) (previous : ExtTreeSet EntityId)
  (policy : DisclosurePolicy)

/-- The routes that reach the connection. -/
def routed (id : EntityId) (entity : EntityRegistration) : EligibilityReasons :=
  (((flag entity.routes.global .global).insert (flag (entity.routes.owner = some connection)
    .owner)).insert
    (flag (view.semanticGrants.toList.any entity.routes.semantic.contains) .semantic)).insert
      (flag (entity.routes.spatial.isSome &&
        graph.spatiallyEligible entity view (previous.contains id)) .spatial)

/-- The entry of a registered entity that is found for some reasons. -/
def disclosed (entity : EntityRegistration) (reasons : EligibilityReasons) : Option EligibleEntry :=
  (permitted connection view entity policy).bind fun representation =>
    if reasons.isEmpty then none else some (entry entity representation reasons)

/-- Every registered entity that is permitted and reached. -/
def scan (required : ExtTreeSet EntityId) : ExtTreeMap EntityId EligibleEntry :=
  graph.entities.filterMap fun id entity =>
    disclosed connection view policy entity
      ((graph.routed connection view previous id entity).insert
        (flag (required.contains id) .required))

/-- The first entity declares that it depends on the second. -/
def Depends (source target : EntityId) : Prop := graph.Has source (target ∈ ·.dependencies)

end Graph

/-- The members of the prediction group that was admitted. -/
def PredictionAdmission.members : PredictionAdmission → ExtTreeSet EntityId
  | .admitted members => members
  | _ => ∅

/-! ### Candidates -/

theorem EligibilityReasons.insert_flag_or (reasons : EligibilityReasons) (a b : Bool)
    (reason : EligibilityReasons) :
    reasons.insert (flag (a || b) reason) = (reasons.insert (flag a reason)).insert
      (flag b reason) := by
  cases a <;> cases b <;> simp [EligibilityReasons.insert, flag, BitVec.or_assoc]

theorem EligibilityReasons.insert_flag_false (reasons reason : EligibilityReasons) :
    reasons.insert (flag false reason) = reasons := by
  simp [EligibilityReasons.insert, flag]

namespace Gathering

def reasonsAt (gathering : Gathering) (id : EntityId) : EligibilityReasons :=
  gathering.candidates[id]?.getD ⟨0⟩

/-- The second gathering has a reason more for some entities. -/
structure Added (reason : EligibilityReasons) (ids : EntityId → Bool)
    (gathering gathering' : Gathering) : Prop where
  reasons : ∀ id, gathering'.reasonsAt id = (gathering.reasonsAt id).insert (flag (ids id) reason)
  contains : ∀ id, gathering'.candidates.contains id = (gathering.candidates.contains id || ids id)

variable {gathering gathering' gathering'' : Gathering} {reason : EligibilityReasons}
  {limits : Limits}

theorem Added.trans {ids ids' : EntityId → Bool} (h : Added reason ids gathering gathering')
    (h' : Added reason ids' gathering' gathering'') :
    Added reason (fun id => ids id || ids' id) gathering gathering'' where
  reasons id := by rw [h'.reasons, h.reasons, EligibilityReasons.insert_flag_or]
  contains id := by rw [h'.contains, h.contains, Bool.or_assoc]

theorem Added.loop {α : Type} {round : Gathering → α → Except GatherError Gathering}
    {ids : α → EntityId → Bool} (hround : ∀ gathering a gathering', round gathering a =
      .ok gathering' → Added reason (ids a) gathering gathering') {as : List α}
    (h : loop round gathering as = .ok gathering') :
    Added reason (fun id => as.any (ids · id)) gathering gathering' := by
  induction as generalizing gathering with
  | nil =>
    cases h
    exact ⟨fun _ => (EligibilityReasons.insert_flag_false _ _).symm,
      fun _ => (Bool.or_false _).symm⟩
  | cons a as ih =>
    obtain ⟨next, hnext, hrest⟩ := bind_eq_ok.mp h
    exact (hround _ _ _ hnext).trans (ih hrest)

theorem add_ok {id : EntityId} (h : gathering.add limits reason id = .ok gathering') :
    Added reason (fun other => id = other) gathering gathering' := by
  -- a vacant entry takes the reason alone, as an occupied one without reasons would
  have hinserted : gathering'.candidates =
      gathering.candidates.insert id ((gathering.reasonsAt id).insert reason) := by
    unfold add at h
    split at h
    · cases h
    split at h
    · rename_i reasons hreasons
      cases h
      simp [reasonsAt, hreasons]
    · rename_i hvacant
      split at h
      · cases h
      cases h
      simp [reasonsAt, hvacant, EligibilityReasons.insert]
  refine ⟨fun other => ?_, fun other => ?_⟩
  · rw [reasonsAt, hinserted, lookup_insert]
    by_cases hid : id = other
    · subst hid
      simp [flag]
    · simp [hid, flag, EligibilityReasons.insert, reasonsAt]
  · rw [hinserted, ExtTreeMap.contains_insert, Bool.or_comm]
    congr 1
    rw [Bool.eq_iff_iff, beq_iff_eq, Std.compare_eq_iff_eq, decide_eq_true_iff]

theorem addAll_ok {ids : ExtTreeSet EntityId}
    (h : gathering.addAll limits reason ids = .ok gathering') :
    Added reason ids.contains gathering gathering' := by
  have hadded : Added reason (fun other => ids.toList.any fun id => decide (id = other)) gathering
      gathering' :=
    Added.loop (fun _ _ _ hadd => add_ok hadd) h
  have hids : (fun other => ids.toList.any fun id => decide (id = other)) = ids.contains := by
    funext other
    rw [Bool.eq_iff_iff, List.any_eq_true, ← ExtTreeSet.mem_iff_contains]
    simp
  rwa [hids] at hadded

end Gathering

namespace Graph
variable {graph : Graph} {connection : ℕ} {view : ConnectionView}
  {previous roots : ExtTreeSet EntityId}
  {policy : DisclosurePolicy}

/-- Whether the cell of an observer lists the entity. -/
def observed (graph : Graph) (view : ConnectionView) (id : EntityId) : Bool :=
  view.observers.any fun observer =>
    (members graph.cells (graph.cell observer.position.x observer.position.z)).contains id

/-- Whether a granted semantic lists the entity. -/
def granted (graph : Graph) (view : ConnectionView) (id : EntityId) : Bool :=
  view.semanticGrants.toList.any fun semantic => (members graph.semantics semantic).contains id

/-- **Inversion of the candidate loops.** -/
theorem candidates_ok {gathering : Gathering} (h : graph.candidates connection view = .ok gathering)
    (id : EntityId) :
    gathering.reasonsAt id =
        (((flag (graph.globals.contains id) .global).insert
          (flag ((members graph.owners connection).contains id) .owner)).insert
            (flag (graph.granted view id) .semantic)).insert
              (flag (graph.observed view id) .spatial) ∧
      (gathering.candidates.contains id → graph.globals.contains id ∨
        (members graph.owners connection).contains id ∨ graph.granted view id ∨
          graph.observed view id) := by
  obtain ⟨globals, hglobals, h⟩ := bind_eq_ok.mp h
  obtain ⟨owners, howners, h⟩ := bind_eq_ok.mp h
  obtain ⟨semantics, hsemantics, h⟩ := bind_eq_ok.mp h
  have hglobals := Gathering.addAll_ok hglobals
  have howners := Gathering.addAll_ok howners
  have hsemantics := Gathering.Added.loop (fun _ _ _ hadd => Gathering.addAll_ok hadd) hsemantics
  have hcells := Gathering.Added.loop (fun _ _ _ hadd => Gathering.addAll_ok hadd) h
  constructor
  · rw [hcells.reasons, hsemantics.reasons, howners.reasons, hglobals.reasons]
    simp [Gathering.reasonsAt, EligibilityReasons.insert, granted, observed]
  · intro hcontains
    rw [hcells.contains, hsemantics.contains, howners.contains, hglobals.contains] at hcontains
    simpa [granted, observed, or_assoc] using hcontains

/-! ### Footprints cover the reach -/

variable {id : EntityId} {entity : EntityRegistration}

theorem has_iff (h : graph.entities[id]? = some entity)
    (p : EntityRegistration → Prop) : graph.Has id p ↔ p entity := by
  simp [Has, h]

theorem toI64_mono : Monotone toI64 := fun _ _ h => max_le_max_left _ (min_le_min_right _ h)

theorem cell_mono (hsize : 0 < graph.limits.cellSize) {x x' z z' : ℚ} (hx : x ≤ x') (hz : z ≤ z') :
    (graph.cell x z).x ≤ (graph.cell x' z').x ∧ (graph.cell x z).z ≤ (graph.cell x' z').z :=
  ⟨toI64_mono (Int.floor_le_floor (div_le_div_of_nonneg_right hx hsize.le)),
    toI64_mono (Int.floor_le_floor (div_le_div_of_nonneg_right hz hsize.le))⟩

theorem mem_intRange {low high n : ℤ} : n ∈ intRange low high ↔ low ≤ n ∧ n ≤ high := by
  simp only [intRange, List.mem_map, List.mem_range]
  constructor
  · rintro ⟨k, hk, rfl⟩
    omega
  · rintro ⟨hlow, hhigh⟩
    exact ⟨(n - low).toNat, by omega, by omega⟩

theorem mem_cellsBetween {low high cell : Cell} :
    cell ∈ cellsBetween low high ↔ (low.x ≤ cell.x ∧ cell.x ≤ high.x) ∧ low.z ≤ cell.z ∧
      cell.z ≤ high.z := by
  simp only [cellsBetween, List.mem_flatMap, List.mem_map, mem_intRange]
  constructor
  · rintro ⟨x, hx, z, hz, rfl⟩
    exact ⟨hx, hz⟩
  · rintro ⟨hx, hz⟩
    exact ⟨cell.x, hx, cell.z, hz, rfl⟩

/-- No coordinate is farther away than the distance. -/
theorem abs_sub_le_of_within {p q : Position} {radius : ℚ} (h : p.within q radius) :
    |p.x - q.x| ≤ radius ∧ |p.z - q.z| ≤ radius := by
  rw [Position.within, Bool.and_eq_true, decide_eq_true_iff, decide_eq_true_iff] at h
  obtain ⟨hradius, hsquares⟩ := h
  constructor
  · exact abs_le_of_sq_le_sq (by linarith [sq_nonneg (p.y - q.y), sq_nonneg (p.z - q.z)]) hradius
  · exact abs_le_of_sq_le_sq (by linarith [sq_nonneg (p.x - q.x), sq_nonneg (p.y - q.y)]) hradius

theorem reach_le_influence (hmargin : 0 ≤ graph.limits.leaveMargin) (entity : EntityRegistration)
    (previous : Bool) : graph.reach entity previous ≤ graph.influence entity := by
  unfold reach influence
  cases previous
  · simp only [Bool.false_eq_true, if_false]
    linarith
  · simp only [if_true]
    linarith

/-- **The footprint covers the reach**: the cell of every position from which an entity can be
reached is in it. -/
theorem corners_cover (hsize : 0 < graph.limits.cellSize) {position : Position}
    {radius : ℚ} (hwithin : entity.bounds.center.within position radius)
    (hradius : radius ≤ graph.influence entity) :
    graph.cell position.x position.z ∈
      cellsBetween (graph.corners entity).1 (graph.corners entity).2 := by
  obtain ⟨hx, hz⟩ := abs_sub_le_of_within hwithin
  rw [abs_le] at hx hz
  have hlow := cell_mono hsize
    (show entity.bounds.center.x - graph.influence entity ≤ position.x by linarith)
    (show entity.bounds.center.z - graph.influence entity ≤ position.z by linarith)
  have hhigh := cell_mono hsize
    (show position.x ≤ entity.bounds.center.x + graph.influence entity by linarith)
    (show position.z ≤ entity.bounds.center.z + graph.influence entity by linarith)
  exact mem_cellsBetween.mpr ⟨⟨hlow.1, hhigh.1⟩, hlow.2, hhigh.2⟩

/-- The cells list an entity where its route is spatial and an observer is near. -/
theorem Tables.observed_eq (h : graph.Tables) (hsize : 0 < graph.limits.cellSize)
    (hmargin : 0 ≤ graph.limits.leaveMargin)
    (hentity : graph.entities[id]? = some entity) (previous : Bool) :
    (graph.observed view id && graph.spatiallyEligible entity view previous) =
      (entity.routes.spatial.isSome && graph.spatiallyEligible entity view previous) := by
  obtain ⟨cells, span, hspan, rfl⟩ := h.spanned id entity hentity
  have hcells (cell : Cell) : id ∈ members graph.cells cell ↔ cell ∈ rectangle span := by
    rw [h.cells]
    constructor
    · rintro ⟨cells, hcells, hmem⟩
      obtain ⟨span', hspan', rfl⟩ := (has_iff hentity _).mp ((h.footprints id cells).mp hcells)
      rw [hspan] at hspan'
      cases hspan'
      exact hmem
    · exact fun hmem =>
        ⟨rectangle span, (h.footprints id _).mpr ((has_iff hentity _).mpr ⟨span, hspan, rfl⟩), hmem⟩
  obtain ⟨-, -, ⟨hnone, rfl⟩ | ⟨hsome, rfl, -⟩⟩ := footprintSpan_ok hspan
  · have hobserved : graph.observed view id = false := by
      rw [observed, List.any_eq_false]
      intro observer _ hmem
      have := (hcells _).mp (ExtTreeSet.mem_iff_contains.mpr hmem)
      simp [rectangle] at this
    rw [hobserved, hnone]
    rfl
  · rw [Option.isSome_iff_ne_none.mpr hsome, Bool.true_and, Bool.and_eq_right_iff_imp]
    intro heligible
    obtain ⟨observer, hmem, hnear⟩ := List.any_eq_true.mp heligible
    rw [Bool.and_eq_true] at hnear
    refine List.any_eq_true.mpr ⟨observer, hmem, ExtTreeSet.mem_iff_contains.mp ((hcells _).mpr ?_)⟩
    have hcover := corners_cover hsize hnear.2 (reach_le_influence hmargin entity previous)
    simpa [rectangle] using hcover

/-! ### Entries -/

/-- Taking the spatial reason away from what is too far. -/
theorem filtered_eq (isGlobal owned granted observed near : Bool) :
    let reasons :=
      (((flag isGlobal .global).insert (flag owned .owner)).insert (flag granted .semantic)).insert
      (flag observed .spatial)
    (if reasons.contains .spatial && !near then reasons.withoutSpatial else reasons) =
      (((flag isGlobal .global).insert (flag owned .owner)).insert (flag granted .semantic)).insert
        (flag (observed && near) .spatial) := by
  revert isGlobal owned granted observed near
  decide

theorem eligible_eq (id : EntityId) (reasons : EligibilityReasons) (entity : EntityRegistration) :
    graph.eligible connection view previous policy id reasons entity =
      disclosed connection view policy entity
        (if reasons.contains .spatial &&
          !graph.spatiallyEligible entity view (previous.contains id) then
          reasons.withoutSpatial else reasons) := rfl

theorem disclosed_none (entity : EntityRegistration) :
    disclosed connection view policy entity ⟨0⟩ = none := by
  simp [disclosed, EligibilityReasons.isEmpty]

/-- The candidates that stay are those a scan finds by their routes. -/
theorem Tables.entry_eq (h : graph.Tables) (hsize : 0 < graph.limits.cellSize)
    (hmargin : 0 ≤ graph.limits.leaveMargin) {gathering : Gathering}
    (hcandidates : graph.candidates connection view = .ok gathering) (id : EntityId) :
    (gathering.candidates.filterMap fun id reasons =>
        graph.entities[id]?.bind (graph.eligible connection view previous policy id reasons))[id]? =
      graph.entities[id]?.bind fun entity =>
        disclosed connection view policy entity (graph.routed connection view previous id
          entity) := by
  rw [ExtTreeMap.getElem?_filterMap']
  cases hentity : graph.entities[id]? with
  | none => cases gathering.candidates[id]? <;> rfl
  | some entity =>
    obtain ⟨hreasons, -⟩ := candidates_ok hcandidates id
    have hglobal : graph.globals.contains id = entity.routes.global := by
      rw [Bool.eq_iff_iff, ← ExtTreeSet.mem_iff_contains, h.globals, has_iff hentity]
    have howner : (members graph.owners connection).contains id =
        decide (entity.routes.owner = some connection) := by
      rw [Bool.eq_iff_iff, ← ExtTreeSet.mem_iff_contains, h.owners, has_iff hentity,
        decide_eq_true_iff]
    have hsemantic : graph.granted view id =
        view.semanticGrants.toList.any entity.routes.semantic.contains := by
      unfold granted
      congr 1
      funext semantic
      rw [Bool.eq_iff_iff, ← ExtTreeSet.mem_iff_contains, h.semantics, has_iff hentity,
        ExtTreeSet.mem_iff_contains]
    have hrouted : graph.routed connection view previous id entity =
        if (gathering.reasonsAt id).contains .spatial &&
            !graph.spatiallyEligible entity view (previous.contains id) then
          (gathering.reasonsAt id).withoutSpatial
        else gathering.reasonsAt id := by
      rw [hreasons, hglobal, howner, hsemantic, filtered_eq, h.observed_eq hsize hmargin hentity]
      rfl
    simp only [Option.bind_some, eligible_eq]
    rw [hrouted]
    cases hcandidate : gathering.candidates[id]? with
    | some reasons =>
      rw [Gathering.reasonsAt, hcandidate]
      rfl
    | none =>
      -- What is no candidate has no reasons.
      rw [Gathering.reasonsAt, hcandidate]
      exact (disclosed_none entity).symm

end Graph

/-! ### Prediction groups -/

namespace Closing
variable {graph : Graph} {connection : ℕ} {view : ConnectionView} {roots : ExtTreeSet EntityId}
  {policy : DisclosurePolicy} {closing closing' closing'' : Closing} {limits : Limits}

/-- Some targets were noted, within the limit. -/
structure Followed (limits : Limits) (targets : EntityId → Prop)
    (closing closing' : Closing) : Prop where
  visited : closing'.visited = closing.visited
  noted : ∀ id, id ∈ closing'.pending ∨ id ∈ closing'.visited ↔
    (id ∈ closing.pending ∨ id ∈ closing.visited) ∨ targets id
  disjoint : (∀ id ∈ closing.pending, id ∉ closing.visited) → ∀ id ∈ closing'.pending,
    id ∉ closing'.visited
  room : closing.visited.size + closing.pending.size ≤ limits.maxRequired →
    closing'.visited.size + closing'.pending.size ≤ limits.maxRequired

theorem Followed.trans {targets targets' : EntityId → Prop}
    (h : Followed limits targets closing closing')
    (h' : Followed limits targets' closing' closing'') :
    Followed limits (fun id => targets id ∨ targets' id) closing closing'' where
  visited := h'.visited.trans h.visited
  noted id := by rw [h'.noted, h.noted, or_assoc]
  disjoint hdisjoint := h'.disjoint (h.disjoint hdisjoint)
  room hroom := h'.room (h.room hroom)

variable {id : EntityId}

theorem follow_ok {target : EntityId} (h : closing.follow limits connection policy id target =
    .ok closing') :
    Followed limits (· = target) closing closing' := by
  obtain ⟨-, -, h⟩ := bind_eq_ok.mp h
  obtain ⟨-, -, h⟩ := bind_eq_ok.mp h
  split at h
  · rename_i hknown
    cases h
    rw [Bool.or_eq_true, ← ExtTreeMap.mem_iff_contains, ← ExtTreeSet.mem_iff_contains] at hknown
    refine ⟨rfl, fun other => ⟨.inl, ?_⟩, fun hdisjoint => hdisjoint, fun hroom => hroom⟩
    rintro (hnoted | rfl)
    · exact hnoted
    · exact hknown.symm
  · rename_i hnew
    obtain ⟨_, hroom, rfl⟩ := map_eq_ok.mp h
    rw [require_eq_ok] at hroom
    rw [Bool.or_eq_true,
      not_or, ← ExtTreeMap.mem_iff_contains, ← ExtTreeSet.mem_iff_contains] at hnew
    refine ⟨rfl, fun other => ?_, fun hdisjoint other hother => ?_, fun _ => ?_⟩
    · rw [mem_set_insert]
      tauto
    · rcases (mem_set_insert _ _ _).mp hother with rfl | hother
      · exact hnew.1
      · exact hdisjoint other hother
    · have hsize : (closing.pending.insert target).size ≤ closing.pending.size + 1 :=
        ExtTreeSet.size_insert_le
      dsimp only
      omega

theorem follow_loop {targets : List EntityId}
    (h : loop (follow limits connection policy id) closing targets = .ok closing') :
    Followed limits (· ∈ targets) closing closing' := by
  induction targets generalizing closing with
  | nil =>
    cases h
    exact ⟨rfl, fun _ => by simp, fun hdisjoint => hdisjoint, fun hroom => hroom⟩
  | cons target targets ih =>
    obtain ⟨next, hnext, hrest⟩ := bind_eq_ok.mp h
    simpa only [List.mem_cons] using (follow_ok hnext).trans (ih hrest)

/-- The entry is that of a permitted entity, for the reason that it is required. -/
def Required (graph : Graph) (connection : ℕ) (view : ConnectionView) (policy : DisclosurePolicy)
    (id : EntityId) (required : EligibleEntry) : Prop :=
  ∃ entity representation, graph.entities[id]? = some entity ∧
    permitted connection view entity policy = some representation ∧
      required = entry entity representation .required

/-- The invariant of the closure loop. -/
structure Sound (graph : Graph) (connection : ℕ) (view : ConnectionView) (policy : DisclosurePolicy)
    (roots : ExtTreeSet EntityId) (closing : Closing) : Prop where
  covers : Covers graph.Depends (· ∈ roots) (· ∈ closing.pending) (· ∈ closing.visited)
  disjoint : ∀ id ∈ closing.pending, id ∉ closing.visited
  room : closing.visited.size + closing.pending.size ≤ graph.limits.maxRequired
  entries : ∀ (id : EntityId) required, closing.visited[id]? = some required →
    Required graph connection view policy id required

/-- A round visits one entity that was pending. -/
theorem Sound.visit (h : Sound graph connection view policy roots closing)
    (hid : id ∈ closing.pending) (hvisit : closing.visit graph connection view policy id =
      .ok closing') :
    Sound graph connection view policy roots closing' ∧ closing'.visited.size =
      closing.visited.size + 1 := by
  obtain ⟨entity, hentity, hvisit⟩ := bind_eq_ok.mp hvisit
  obtain ⟨representation, hpermitted, hvisit⟩ := bind_eq_ok.mp hvisit
  obtain ⟨-, -, hvisit⟩ := bind_eq_ok.mp hvisit
  rw [obtainOr_eq_ok] at hentity hpermitted
  have hfollowed := follow_loop hvisit
  have hfresh := h.disjoint id hid
  have hsize : (closing.visited.insert id (entry entity representation .required)).size =
      closing.visited.size + 1 := by
    rw [ExtTreeMap.size_insert, if_neg (by rwa [← ExtTreeMap.mem_iff_contains])]
  have herased : (closing.pending.erase id).size + 1 = closing.pending.size := by
    have hpos : closing.pending.size ≠ 0 := fun hzero => by
      rw [ExtTreeSet.eq_empty_iff_size_eq_zero.mpr hzero] at hid
      exact ExtTreeSet.not_mem_empty hid
    rw [ExtTreeSet.size_erase, if_pos (ExtTreeSet.mem_iff_contains.mp hid)]
    omega
  have hvisited (other : EntityId) : other ∈ closing'.visited ↔ other = id ∨
      other ∈ closing.visited := by
    rw [hfollowed.visited, ExtTreeMap.mem_insert, Std.compare_eq_iff_eq, eq_comm]
  refine ⟨⟨h.covers.visit hid hvisited fun other => ?_, hfollowed.disjoint fun other hother => ?_,
    hfollowed.room ?_, fun other required hother => ?_⟩, by rw [hfollowed.visited, hsize]⟩
  · rw [hfollowed.noted, Graph.Depends, Graph.has_iff hentity, ExtTreeSet.mem_toList, mem_set_erase,
      ExtTreeMap.mem_insert, Std.compare_eq_iff_eq]
    by_cases hother : other = id
    · simp [hother, hid]
    · simp [hother, Ne.symm hother]
  · obtain ⟨hne, hother⟩ := (mem_set_erase _ _ _).mp hother
    rw [ExtTreeMap.mem_insert, Std.compare_eq_iff_eq]
    exact fun hmem => hmem.elim (fun heq => hne heq.symm) (h.disjoint other hother)
  · have := h.room
    dsimp only
    omega
  · rw [hfollowed.visited, lookup_insert] at hother
    split_ifs at hother with hother_id
    · cases hother
      subst hother_id
      exact ⟨entity, representation, hentity, hpermitted, rfl⟩
    · exact h.entries other required hother

/-- **The loop ends.**  As many rounds as there is room for leave nothing pending. -/
theorem Sound.rounds {n : ℕ} (h : Sound graph connection view policy roots closing)
    (hn : graph.limits.maxRequired ≤ n + closing.visited.size)
    (hrounds : rounds graph connection view policy n closing = .ok closing') :
    Sound graph connection view policy roots closing' ∧ ∀ id, id ∉ closing'.pending := by
  induction n generalizing closing with
  | zero =>
    cases hrounds
    have hroom := h.room
    have hempty : closing'.pending = ∅ := ExtTreeSet.eq_empty_iff_size_eq_zero.mpr (by omega)
    exact ⟨h, fun id => by rw [hempty]; exact ExtTreeSet.not_mem_empty⟩
  | succ n ih =>
    rw [Closing.rounds] at hrounds
    split at hrounds
    · rename_i hempty
      cases hrounds
      refine ⟨h, fun id hid => ?_⟩
      rw [List.head?_eq_none_iff] at hempty
      rw [← ExtTreeSet.mem_toList, hempty] at hid
      cases hid
    · rename_i id hhead
      obtain ⟨next, hvisit, hrest⟩ := bind_eq_ok.mp hrounds
      have hid : id ∈ closing.pending := ExtTreeSet.mem_toList.mp (List.mem_of_head? hhead)
      obtain ⟨hnext, hsize⟩ := h.visit hid hvisit
      exact ih hnext (by omega) hrest

end Closing

namespace Graph
variable {graph : Graph} {connection : ℕ} {view : ConnectionView}
  {previous roots : ExtTreeSet EntityId}
  {policy : DisclosurePolicy}

theorem required_ok {required : ExtTreeMap EntityId EligibleEntry}
    (h : graph.required connection view roots policy = .ok required) :
    (∀ id, id ∈ required ↔ ∃ root, root ∈ roots ∧ ReflTransGen graph.Depends root id) ∧
      ∀ (id : EntityId) entry, required[id]? = some entry →
        Closing.Required graph connection view policy id entry := by
  obtain ⟨_, hroots, h⟩ := bind_eq_ok.mp h
  obtain ⟨closing, hrounds, rfl⟩ := map_eq_ok.mp h
  rw [require_eq_ok] at hroots
  have hstart : Closing.Sound graph connection view policy roots ⟨roots, ∅, 0⟩ :=
    ⟨.start fun _ => ExtTreeMap.not_mem_empty, fun _ _ => ExtTreeMap.not_mem_empty,
      by simpa using hroots, by simp⟩
  obtain ⟨hsound, hdone⟩ := hstart.rounds (by simp) hrounds
  exact ⟨hsound.covers.complete hdone, hsound.entries⟩

/-- The entry of a member, over what a scan finds by its routes. -/
theorem requireEntry_eq {entity : EntityRegistration} {representation : RepresentationGrant}
    (hpermitted : permitted connection view entity policy = some representation)
    (reasons : EligibilityReasons) :
    some (requireEntry (disclosed connection view policy entity reasons)
      (entry entity representation .required)) =
      disclosed connection view policy entity (reasons.insert (flag true .required)) := by
  have hfound : (reasons.insert (flag true .required)).isEmpty = false := by
    simp only [EligibilityReasons.isEmpty, EligibilityReasons.insert, flag,
      EligibilityReasons.required]
    rw [if_true, decide_eq_false_iff_not]
    intro hzero
    have := congrArg (BitVec.getLsbD · 4) hzero
    simp at this
  simp only [disclosed, hpermitted, Option.bind_some, hfound, Bool.false_eq_true, if_false]
  by_cases hempty : reasons.isEmpty
  · rw [if_pos hempty]
    have hzero : reasons = ⟨0⟩ := by
      cases reasons
      exact congrArg EligibilityReasons.mk (of_decide_eq_true hempty)
    simp [requireEntry, hzero, EligibilityReasons.insert, flag]
  · rw [if_neg hempty]
    simp [requireEntry, entry, flag]

/-- **The entries of a gathering**, from those its routes give. -/
theorem predict_eq {entries : ExtTreeMap EntityId EligibleEntry}
    (hentries : ∀ id : EntityId, entries[id]? = graph.entities[id]?.bind fun entity =>
      disclosed connection view policy entity (graph.routed connection view previous id entity)) :
    (graph.predict connection view roots policy entries).1 =
        graph.scan connection view previous policy (graph.predict connection view roots policy
          entries).2.members ∧
      ∀ members, (graph.predict connection view roots policy entries).2 = .admitted members →
        ∀ id, (id ∈ members ↔ ∃ root, root ∈ roots ∧ ReflTransGen graph.Depends root id) ∧
          (id ∈ members → ∃ required,
            Closing.Required graph connection view policy id required) := by
  -- Without an admitted group there is nothing to add to the reasons.
  have hplain : entries = graph.scan connection view previous policy ∅ := by
    refine ExtTreeMap.ext_getElem? fun id => ?_
    rw [hentries, scan, ExtTreeMap.getElem?_filterMap']
    simp [EligibilityReasons.insert_flag_false]
  unfold predict
  split_ifs with hroots
  · exact ⟨hplain, nofun⟩
  split
  · exact ⟨hplain, nofun⟩
  rename_i required hrequired
  dsimp only
  split_ifs with hlimit
  · exact ⟨hplain, nofun⟩
  obtain ⟨hclosure, hpermitted⟩ := required_ok hrequired
  have hmembers (id : EntityId) : id ∈ ExtTreeSet.ofList required.keys ↔ id ∈ required := by
    rw [ExtTreeSet.mem_ofList, List.contains_iff_mem, ExtTreeMap.mem_keys]
  refine ⟨ExtTreeMap.ext_getElem? fun id => ?_, ?_⟩
  · rw [lookup_foldl_merge requireEntry, scan, ExtTreeMap.getElem?_filterMap', hentries]
    cases hmember : required[id]? with
    | none =>
      have hnot : (ExtTreeSet.ofList required.keys).contains id = false := by
        rw [Bool.eq_false_iff, ne_eq, ← ExtTreeSet.mem_iff_contains, hmembers,
          ExtTreeMap.mem_iff_isSome_getElem?, hmember]
        simp
      simp [PredictionAdmission.members, hnot, EligibilityReasons.insert_flag_false]
    | some member =>
      have hmem : (ExtTreeSet.ofList required.keys).contains id = true := by
        rw [← ExtTreeSet.mem_iff_contains, hmembers, ExtTreeMap.mem_iff_isSome_getElem?, hmember]
        rfl
      obtain ⟨entity, representation, hentity, hrepresentation, rfl⟩ := hpermitted id member hmember
      simp only [hentity, Option.bind_some, Option.elim_some, PredictionAdmission.members, hmem]
      exact requireEntry_eq hrepresentation _
  · rintro members hadmitted id
    cases hadmitted
    rw [hmembers]
    refine ⟨hclosure id, fun hmem => ?_⟩
    rw [ExtTreeMap.mem_iff_isSome_getElem?, Option.isSome_iff_exists] at hmem
    obtain ⟨member, hmember⟩ := hmem
    exact ⟨member, hpermitted id member hmember⟩

/-! ### Runs -/

theorem removeIndices_limits {graph' : Graph} {id : EntityId}
    (h : graph.removeIndices id = some graph') :
    graph'.limits = graph.limits := by
  unfold removeIndices at h
  split at h
  · cases h
    rfl
  · obtain ⟨memberships, -, h⟩ := Option.bind_eq_some_iff.mp h
    obtain ⟨routes, -, rfl⟩ := Option.map_eq_some_iff.mp h
    rfl

theorem call_limits (graph : Graph) (c : Call) : (graph.call c).1.limits = graph.limits := by
  cases c with
  | apply tick change =>
    rw [call, apply]
    split
    · rfl
    cases change with
    | remove id =>
      dsimp only
      split
      · rfl
      · rename_i next hremoved
        exact (removeIndices_limits hremoved : next.limits = graph.limits)
    | upsert entity =>
      dsimp only
      split
      · rfl
      · rfl
      · rfl
      · split
        · rfl
        · rename_i next hremoved
          exact (removeIndices_limits hremoved : next.limits = graph.limits)
  | setConnection tick connection view authorize =>
    rw [call, setConnection]
    repeat' split
    all_goals rfl
  | removeConnection tick connection =>
    rw [call, removeConnection]
    repeat' split
    all_goals rfl
  | prepare frame tick policyRevision =>
    rw [call, prepare]
    repeat' split
    all_goals rfl

theorem after_limits (graph : Graph) (calls : List Call) :
    (graph.after calls).limits = graph.limits :=
  run_invariant (I := fun reached : Graph => reached.limits = graph.limits)
    (fun reached c h => (call_limits reached c).trans h) rfl calls

theorem new_limits {limits : Limits} (h : Graph.new limits = .ok graph) :
    graph.limits = limits ∧ ¬limits.invalid := by
  unfold Graph.new at h
  split_ifs at h with hvalid
  cases h
  exact ⟨rfl, hvalid⟩

/-- Only what the tables list can be a candidate, and that is registered. -/
theorem Tables.candidates_registered (h : graph.Tables) {gathering : Gathering}
    (hcandidates : graph.candidates connection view = .ok gathering) :
    gathering.candidates.keys.all graph.entities.contains = true := by
  rw [List.all_eq_true]
  intro id hid
  have hregistered {p : EntityRegistration → Prop} : graph.Has id p →
      graph.entities.contains id := by
    rintro ⟨entity, hentity, -⟩
    exact contains_of_lookup hentity
  rw [ExtTreeMap.mem_keys, ExtTreeMap.mem_iff_contains] at hid
  rcases (candidates_ok hcandidates id).2 hid with hglobal | howner | hsemantic | hcell
  · exact hregistered ((h.globals id).mp (ExtTreeSet.mem_iff_contains.mpr hglobal))
  · exact hregistered ((h.owners _ id).mp (ExtTreeSet.mem_iff_contains.mpr howner))
  · obtain ⟨semantic, -, hmem⟩ := List.any_eq_true.mp hsemantic
    exact hregistered ((h.semantics _ id).mp (ExtTreeSet.mem_iff_contains.mpr hmem))
  · obtain ⟨observer, -, hmem⟩ := List.any_eq_true.mp hcell
    obtain ⟨cells, hcells, -⟩ := (h.cells _ id).mp (ExtTreeSet.mem_iff_contains.mpr hmem)
    exact hregistered ((h.footprints id cells).mp hcells)

end Graph

namespace PreparedGraph
variable {prepared : PreparedGraph} {connection : ℕ} {previous roots : ExtTreeSet EntityId}
  {policy : DisclosurePolicy}

/-- The required reason is no route. -/
theorem routed_required (graph : Graph) (connection : ℕ) (view : ConnectionView)
    (previous : ExtTreeSet EntityId) (id : EntityId) (entity : EntityRegistration) (member : Bool) :
    ((graph.routed connection view previous id entity).insert (flag member .required)).contains
    .required = member := by
  unfold Graph.routed
  generalize entity.routes.global = a
  generalize decide (entity.routes.owner = some connection) = b
  generalize view.semanticGrants.toList.any entity.routes.semantic.contains = c
  generalize (entity.routes.spatial.isSome &&
    graph.spatiallyEligible entity view (previous.contains id)) = d
  revert a b c d member
  decide

theorem isEmpty_of_contains {reasons : EligibilityReasons} (h : reasons.contains .required) :
    reasons.isEmpty = false := by
  rw [EligibilityReasons.contains, decide_eq_true_iff] at h
  refine decide_eq_false fun hzero => ?_
  rw [hzero] at h
  exact absurd h (by decide)

/-- The members that a scan is given are the entities it marks as required. -/
theorem mem_iff_required {graph : Graph} {view : ConnectionView} {members : ExtTreeSet EntityId}
    (hmembers : ∀ id ∈ members, ∃ required,
      Closing.Required graph connection view policy id required)
    (id : EntityId) :
    id ∈ members ↔ ∃ e, (graph.scan connection view previous policy members)[id]? = some e ∧
      e.reasons.contains .required := by
  rw [Graph.scan, ExtTreeMap.getElem?_filterMap', ExtTreeSet.mem_iff_contains]
  constructor
  · intro hmem
    obtain ⟨-, entity, representation, hentity, hpermitted, -⟩ :=
      hmembers id (ExtTreeSet.mem_iff_contains.mpr hmem)
    have hrequired := routed_required graph connection view previous id entity (members.contains id)
    rw [hmem] at hrequired
    refine ⟨entry entity representation _, ?_, hrequired⟩
    simp only [hentity, Option.bind_some, Graph.disclosed, hpermitted, hmem,
      isEmpty_of_contains hrequired, Bool.false_eq_true, if_false]
    rfl
  · rintro ⟨e, hentry, hrequired⟩
    obtain ⟨entity, -, hentry⟩ := Option.bind_eq_some_iff.mp hentry
    obtain ⟨representation, -, hentry⟩ := Option.bind_eq_some_iff.mp hentry
    split_ifs at hentry
    cases hentry
    rwa [entry, routed_required] at hrequired

/-- What a gathering can come to, on tables that are right. -/
inductive Gathered (prepared : PreparedGraph) (connection : ℕ)
    (previous roots : ExtTreeSet EntityId) (policy : DisclosurePolicy) :
    Answer GatherError EligibleSet → Prop
  | refused (error : GatherError) : Gathered prepared connection previous roots policy (.err error)
  | gathered (set : EligibleSet) (view : ConnectionView)
      (hview : prepared.graph.connections[connection]? = some view)
      (hentries : set.entries =
        prepared.graph.scan connection view previous policy set.prediction.members)
      (hclosure : ∀ members, set.prediction = .admitted members →
        ∀ id, (id ∈ members ↔ ∃ root, root ∈ roots ∧ ReflTransGen prepared.graph.Depends root id) ∧
          (id ∈ members → ∃ required,
            Closing.Required prepared.graph connection view policy id required)) :
      Gathered prepared connection previous roots policy (.ok set)

theorem gathered (prepared : PreparedGraph) (connection : ℕ) (previous roots : ExtTreeSet EntityId)
    (policy : DisclosurePolicy) (htables : prepared.graph.Tables)
    (hsize : 0 < prepared.graph.limits.cellSize) (hmargin : 0 ≤ prepared.graph.limits.leaveMargin) :
    Gathered prepared connection previous roots policy
      (prepared.gather connection previous roots policy) := by
  unfold gather
  split
  · exact .refused _
  rename_i view gathering hchecked
  obtain ⟨-, -, hchecked⟩ := bind_eq_ok.mp hchecked
  obtain ⟨_, hview, hchecked⟩ := bind_eq_ok.mp hchecked
  obtain ⟨-, -, hchecked⟩ := bind_eq_ok.mp hchecked
  obtain ⟨_, hcandidates, heq⟩ := map_eq_ok.mp hchecked
  cases heq
  rw [obtainOr_eq_ok] at hview
  simp only [htables.candidates_registered hcandidates, Bool.not_true, Bool.false_eq_true, if_false]
  split_ifs with hstale
  · exact .refused _
  obtain ⟨hentries, hclosure⟩ :=
    @Graph.predict_eq prepared.graph connection view previous roots policy _
    (htables.entry_eq hsize hmargin hcandidates)
  exact .gathered _ view hview hentries hclosure

/-- **Gathering is a scan.**  The spatial reason is for entities that are registered with a spatial
route. -/
theorem gather_eq_scan {limits : Limits} {graph : Graph} (hnew : Graph.new limits = .ok graph)
    (calls : List Graph.Call) (frame tick policyRevision connection : ℕ)
    (previous roots : ExtTreeSet EntityId) (policy : DisclosurePolicy) :
    PreparedGraph.gather ⟨graph.after calls, frame, tick,
      policyRevision⟩ connection previous roots policy ≠
        .panic ∧
      ∀ set, PreparedGraph.gather ⟨graph.after calls, frame, tick,
        policyRevision⟩ connection previous roots
          policy = .ok set →
        ∃ view, (graph.after calls).connections[connection]? = some view ∧
          set.entries = (graph.after calls).scan connection view previous policy
            set.prediction.members ∧
          (∀ id, id ∈ set.prediction.members ↔ ∃ e, set.entries[id]? = some e ∧
            e.reasons.contains .required) ∧
          ∀ members, set.prediction = .admitted members →
            ∀ id, id ∈ members ↔ ∃ root, root ∈ roots ∧
              ReflTransGen (graph.after calls).Depends root id := by
  obtain ⟨hlimits, hvalid⟩ := Graph.new_limits hnew
  have hlimits : (graph.after calls).limits = limits :=
    (Graph.after_limits graph calls).trans hlimits
  simp only [Limits.invalid, not_or, not_le, not_lt] at hvalid
  obtain ⟨hsize, -, hmargin, -⟩ := hvalid
  have hgathered :=
    gathered ⟨graph.after calls, frame, tick, policyRevision⟩ connection previous roots policy
    ((Graph.Indexed.new hnew).after calls).tables (by rwa [hlimits]) (by rwa [hlimits])
  generalize PreparedGraph.gather ⟨graph.after calls, frame, tick,
    policyRevision⟩ connection previous roots policy =
    answer at hgathered
  cases hgathered with
  | refused error => exact ⟨nofun, nofun⟩
  | gathered set view hview hentries hclosure =>
    refine ⟨nofun, fun set' hset => ?_⟩
    cases hset
    refine ⟨view, hview, hentries, fun id => ?_,
      fun members hadmitted id => (hclosure members hadmitted id).1⟩
    rw [hentries]
    refine mem_iff_required (fun id hid => ?_) id
    cases hprediction : set.prediction with
    | admitted members =>
      rw [hprediction] at hid
      exact (hclosure members hprediction id).2 hid
    | notRequested =>
      rw [hprediction] at hid
      exact (ExtTreeSet.not_mem_empty hid).elim
    | denied error =>
      rw [hprediction] at hid
      exact (ExtTreeSet.not_mem_empty hid).elim

/-! ### A small world -/

/-- Everything is disclosed, and may be predicted. -/
def discloseAll : DisclosurePolicy where
  revision := 1
  representation _ _ := some ⟨1, 1, 1, true⟩
  permitsDependency _ _ _ := true

/-- A view from the origin of the first scene. -/
def originView : ConnectionView := ⟨[⟨⟨0, 0, 0⟩, 1⟩], ∅, ExtTreeSet.ofList [1]⟩

/-- An entity of the first scene, with what it depends on. -/
def placed (index : ℕ) (x : ℚ) (spatial : Option SpatialRoute) (dependencies : List EntityId) :
    EntityRegistration :=
  { id := ⟨index, 1⟩, bounds := ⟨⟨x, 0, 0⟩, 1⟩, cullRadius := 4, routes := ⟨spatial, false, none, ∅⟩
    visibility := .everyone, dependencies := ExtTreeSet.ofList dependencies, stateVersion := 1
    sceneRevision := 1, dormant := false }

/-- One connection looks on while the entities are registered. -/
def watched (entities : List EntityRegistration) : Graph :=
  (Graph.empty .default).after
    (.setConnection 1 1 originView (fun _ _ => true) :: entities.map fun entity =>
      .apply 1 (.upsert entity))

def near : EntityRegistration := placed 1 3 (some .dynamic) [⟨2, 1⟩]

def far : EntityRegistration := placed 2 500 none []

/-- What a connection is given of the two entities when the first one is predicted. -/
def nearSet : EligibleSet where
  connection := 1
  worldRevision := 3
  policyRevision := 1
  frame := 1
  tick := 1
  entries := .ofList
    [(near.id, entry near ⟨1, 1, 1, true⟩ (.insert .spatial .required)),
      (far.id, entry far ⟨1, 1, 1, true⟩ .required)]
    compare
  prediction := .admitted (.ofList [near.id, far.id] compare)
  candidateVisits := 1
  candidates := 1

/-- An entity near the observer is gathered with the one it depends on, which is far away. -/
theorem gather_eq_scan_near : Graph.new .default = .ok (Graph.empty .default) ∧
    PreparedGraph.gather ⟨watched [near, far], 1, 1, 1⟩ 1 ∅
      (.ofList [near.id] compare) discloseAll =
      .ok nearSet ∧
    ∃ view, nearSet.entries =
      (watched [near, far]).scan 1 view ∅ discloseAll (.ofList [near.id, far.id] compare) := by
  have hnew : Graph.new .default = .ok (Graph.empty .default) := by
    rw [Graph.new, if_neg (by decide +kernel)]
  have hgather : PreparedGraph.gather ⟨watched [near, far], 1, 1, 1⟩ 1 ∅ (.ofList [near.id] compare)
      discloseAll =
      .ok nearSet := by
    decide +kernel
  obtain ⟨view, -, hentries, -⟩ := (gather_eq_scan hnew _ 1 1 1 1 ∅ _ discloseAll).2 nearSet hgather
  exact ⟨hnew, hgather, view, hentries⟩

/-- An entity without a spatial route is not found by its distance, however near it is. -/
theorem gather_unrouted :
    (watched [placed 1 0 none []]).spatiallyEligible (placed 1 0 none []) originView false = true ∧
      (permitted 1 originView (placed 1 0 none []) discloseAll).isSome = true ∧
      PreparedGraph.gather ⟨watched [placed 1 0 none []], 1, 1, 1⟩ 1 ∅ ∅ discloseAll =
        .ok ⟨1, 2, 1, 1, 1, ∅, .notRequested, 0, 0⟩ := by
  decide +kernel

end PreparedGraph
end Net.Interest
