import Discordium.Core.Combat.History
import Discordium.Lib.Search

/-!
# Core — Combat — Sampling

Samples of the hit history between its ticks, as `history/interpolation.rs` has them.  A sample of
one actor takes its pose at a tick, or blends it with that at the next tick; a sample of a frame
does so for every eligible actor, and is refused unless the same actors are eligible at both ends.
Each pose that is looked at is charged to a budget, which keeps what was charged when a sample
fails.

**A frame is its actors** (`sampleFrame_agrees`).  A sample of a frame succeeds exactly if each of
its actors can be sampled alone and the budget covers both ends.  The lookups are binary searches,
so this rests on what every capture keeps: the poses of a frame are in increasing order of their
indices.
-/

namespace Core.Combat
open Lib

/-- The errors of `HistoryError` that samples give. -/
inductive SampleError where
  | missingHistory
  | wrongScene
  | missingEntity
  | wrongLifecycle
  | discontinuity
  | queryBudget
  deriving DecidableEq

/-- What is left of a budget and what is used of it. -/
structure QueryBudget where
  remainingTests : ℕ
  usedTests : ℕ

/-- The vector arithmetic of a blend. -/
class Blends (F : Type) where
  /-- A fraction of a tick, in 65,536ths, as a number. -/
  alpha : ℕ → F
  lerp : F × F × F → F × F × F → F → F × F × F
  slerp : F × F × F × F → F × F × F × F → F → F × F × F × F

deriving instance BEq for CollisionShape

section model
variable {F : Type}

/-! ### Lookups -/

def HitFrame.pose (frame : HitFrame F) (entity : ColliderKey) (segment : ℕ) :
    Except SampleError (CombatPose F) :=
  match (binarySearchByKey (·.entity.index) entity.index frame.poses).bind (frame.poses[·]?) with
  | none => .error .missingEntity
  | some pose =>
    if pose.entity ≠ entity then .error .wrongLifecycle
    else if pose.segment ≠ segment then .error .discontinuity
    else .ok pose

def HitHistory.frame (history : HitHistory F) (tick scene : ℕ) : Except SampleError (HitFrame F) :=
  (obtainOr .missingHistory (history.frames.find? (·.tick = tick))).bind fun frame =>
    (require .wrongScene (frame.scene = scene)).map fun _ => frame

/-- The frame of the tick after. -/
def HitHistory.nextFrame (history : HitHistory F) (tick scene : ℕ) :
    Except SampleError (HitFrame F) :=
  (obtainOr .missingHistory (checkedAdd 64 tick 1)).bind fun next => history.frame next scene

/-! ### Samples -/

/-- What goes on after one charge of the budget. -/
def QueryBudget.charge {α : Type} (budget : QueryBudget)
    (next : QueryBudget → QueryBudget × Except SampleError α) :
    QueryBudget × Except SampleError α :=
  if budget.remainingTests = 0 then (budget, .error .queryBudget)
  else next ⟨budget.remainingTests - 1, budget.usedTests + 1⟩

variable [BEq F] [Blends F]

def blend (a b : CombatPose F) (fraction : ℕ) : Except SampleError (CombatPose F) :=
  if a.entity ≠ b.entity then .error .wrongLifecycle
  else if a.segment ≠ b.segment ∨ (a.shape == b.shape) = false then .error .discontinuity
  else .ok { a with
    position := Blends.lerp a.position b.position (Blends.alpha fraction)
    rotation := Blends.slerp a.rotation b.rotation (Blends.alpha fraction) }

namespace HitHistory

def samplePose (history : HitHistory F) (tick fraction scene : ℕ) (entity : ColliderKey)
    (segment : ℕ) (budget : QueryBudget) : QueryBudget × Except SampleError (CombatPose F) :=
  budget.charge fun budget =>
    match (history.frame tick scene).bind (·.pose entity segment) with
    | .error error => (budget, .error error)
    | .ok left =>
      if fraction = 0 then (budget, .ok left)
      else
        budget.charge fun budget =>
          (budget, ((history.nextFrame tick scene).bind (·.pose entity segment)).bind fun right =>
            blend left right fraction)

/-- The pose an eligible actor of the left frame has in the sample. -/
def between (eligible : CombatPose F → Bool) (fraction : ℕ) (right : Option (HitFrame F))
    (a : CombatPose F) : Except SampleError (CombatPose F) :=
  match right with
  | none => .ok a
  | some right =>
    (right.pose a.entity a.segment).bind fun b =>
      (require .discontinuity (eligible b = true)).bind fun _ => blend a b fraction

/-- The loop of `sample_frame` over the left frame. -/
def sampleLeft (eligible : CombatPose F → Bool) (fraction : ℕ) (right : Option (HitFrame F)) :
    List (CombatPose F) → QueryBudget → QueryBudget × Except SampleError (List (CombatPose F))
  | [], budget => (budget, .ok [])
  | a :: poses, budget =>
    budget.charge fun budget =>
      if !eligible a then sampleLeft eligible fraction right poses budget
      else
        match between eligible fraction right a with
        | .error error => (budget, .error error)
        | .ok pose =>
          let rest := sampleLeft eligible fraction right poses budget
          (rest.1, rest.2.map (pose :: ·))

omit [BEq F] [Blends F] in
/-- The loop of `sample_frame` over the right frame. -/
def checkRight (eligible : CombatPose F → Bool) (left : HitFrame F) :
    List (CombatPose F) → QueryBudget → QueryBudget × Except SampleError Unit
  | [], budget => (budget, .ok ())
  | b :: poses, budget =>
    budget.charge fun budget =>
      if !eligible b then checkRight eligible left poses budget
      else
        match (left.pose b.entity b.segment).bind fun a => require .discontinuity
          (eligible a = true) with
        | .error error => (budget, .error error)
        | .ok _ => checkRight eligible left poses budget

def sampleFrame (history : HitHistory F) (tick fraction scene : ℕ) (eligible : CombatPose F → Bool)
    (budget : QueryBudget) : QueryBudget × Except SampleError (HitFrame F) :=
  match history.frame tick scene with
  | .error error => (budget, .error error)
  | .ok left =>
    match if fraction = 0 then .ok none else (history.nextFrame tick scene).map some with
    | .error error => (budget, .error error)
    | .ok right =>
      match sampleLeft eligible fraction right left.poses budget with
      | (budget, .error error) => (budget, .error error)
      | (budget, .ok poses) =>
        match right with
        | none => (budget, .ok ⟨tick, scene, poses⟩)
        | some right =>
          let checked := checkRight eligible left right.poses budget
          (checked.1, checked.2.map fun _ => ⟨tick, scene, poses⟩)

end HitHistory
end model

/-! ### Frames in order of index -/

section frames
variable {F : Type}

/-- The poses of a frame are in increasing order of index. -/
def HitFrame.Indexed (frame : HitFrame F) : Prop :=
  frame.poses.Pairwise (·.entity.index < ·.entity.index)

variable {frame : HitFrame F}

theorem HitFrame.Indexed.eq_of_index (h : frame.Indexed) {a b : CombatPose F}
    (ha : a ∈ frame.poses) (hb : b ∈ frame.poses) (heq : a.entity.index = b.entity.index) :
    a = b := by
  have hnodup : (frame.poses.map (·.entity.index)).Nodup :=
    List.pairwise_map.mpr (h.imp fun hlt => hlt.ne)
  exact List.inj_on_of_nodup_map hnodup ha hb heq

/-- **A lookup** finds the pose of the entity and segment. -/
theorem HitFrame.pose_eq_ok (h : frame.Indexed) {entity : ColliderKey} {segment : ℕ}
    {pose : CombatPose F} :
    frame.pose entity segment = .ok pose ↔ pose ∈ frame.poses ∧ pose.entity = entity ∧
      pose.segment = segment := by
  unfold HitFrame.pose
  rw [binarySearchByKey_bind h]
  cases hfind : frame.poses.find? (·.entity.index = entity.index) with
  | none =>
    have hnone : ∀ a ∈ frame.poses, a.entity.index ≠ entity.index := by
      simpa using List.find?_eq_none.mp hfind
    simp only [reduceCtorEq, false_iff]
    rintro ⟨hmem, rfl, -⟩
    exact hnone pose hmem rfl
  | some found =>
    have hmem := List.mem_of_find?_eq_some hfind
    have hindex : found.entity.index = entity.index := by simpa using List.find?_some hfind
    dsimp only
    constructor
    · intro hok
      split_ifs at hok with hentity hsegment
      cases hok
      exact ⟨hmem, not_not.mp hentity, not_not.mp hsegment⟩
    · rintro ⟨hmem', rfl, rfl⟩
      obtain rfl := h.eq_of_index hmem hmem' hindex
      rw [if_neg (not_not.mpr rfl), if_neg (not_not.mpr rfl)]

variable [Spatial F] {poses next : List (CombatPose F)}

/-- The poses that pass the check of a capture keep their order, and no two have one index. -/
theorem checkPoses_indexed {previous : Option ℕ} (h : checkPoses previous poses = .ok next)
    (hsorted : poses.Pairwise (·.entity.index ≤ ·.entity.index))
    (hprevious : ∀ index ∈ previous, ∀ pose ∈ poses, index ≤ pose.entity.index) :
    next.Pairwise (·.entity.index < ·.entity.index) ∧
      ∀ index ∈ previous, ∀ pose ∈ next, index < pose.entity.index := by
  induction poses generalizing previous next with
  | nil =>
    cases h
    exact ⟨.nil, nofun⟩
  | cons pose poses ih =>
    obtain ⟨hfirst, hrest⟩ := List.pairwise_cons.mp hsorted
    unfold checkPoses at h
    split at h
    · cases h
    case isFalse hchecks =>
      split at h
      · cases h
      obtain ⟨rest, hcheck, rfl⟩ := map_eq_ok.mp h
      obtain ⟨hindexed, habove⟩ := ih hcheck hrest (by
        rintro _ ⟨⟩ other hother
        exact hfirst other hother)
      have hnew : previous ≠ some pose.entity.index := fun heq => hchecks (.inr (.inr heq))
      refine ⟨List.pairwise_cons.mpr ⟨habove _ rfl, hindexed⟩, fun index hindex other hother => ?_⟩
      have hlt : index < pose.entity.index := by
        refine lt_of_le_of_ne (hprevious index hindex pose List.mem_cons_self) fun heq => hnew ?_
        rw [← heq]
        exact hindex
      rcases List.mem_cons.mp hother with rfl | hother
      · exact hlt
      · exact hlt.trans (habove _ rfl other hother)

theorem preparePoses_indexed (h : preparePoses poses = .ok next) :
    next.Pairwise (·.entity.index < ·.entity.index) := by
  have htotal : ∀ a b : CombatPose F, (a.entity.le b.entity = true) ∨
      b.entity.le a.entity = true := by
    intro a b
    simp only [ColliderKey.le, Bool.or_eq_true, Bool.and_eq_true, decide_eq_true_eq]
    omega
  have htrans : ∀ a b c : CombatPose F, a.entity.le b.entity = true → b.entity.le c.entity = true →
      a.entity.le c.entity = true := by
    intro a b c
    simp only [ColliderKey.le, Bool.or_eq_true, Bool.and_eq_true, decide_eq_true_eq]
    omega
  have : Std.Total fun a b : CombatPose F => a.entity.le b.entity = true := ⟨htotal⟩
  have : IsTrans (CombatPose F) fun a b => a.entity.le b.entity = true := ⟨htrans⟩
  refine (checkPoses_indexed h ((List.pairwise_insertionSort _ poses).imp fun hle => ?_) nofun).1
  simp only [ColliderKey.le, Bool.or_eq_true, Bool.and_eq_true, decide_eq_true_eq] at hle
  omega

namespace HitHistory

/-- **Every frame of every history is in order.** -/
theorem indexed_of_run {limits : HistoryLimits} {start : HitHistory F}
    (hnew : new limits = .ok start) (calls : List (Call F)) :
    ∀ frame ∈ (run Ledger.step ⟨start, []⟩ calls).history.frames, frame.Indexed := by
  obtain ⟨hlimits, hstart⟩ := Ledger.Retains.new hnew
  have h : Ledger.Retains limits (run Ledger.step ⟨start, []⟩ calls) ∧
      ∀ frame ∈ (run Ledger.step ⟨start, []⟩ calls).accepted, frame.Indexed := by
    refine run_invariant (I := fun ledger => Ledger.Retains limits ledger ∧
      ∀ frame ∈ ledger.accepted, frame.Indexed)
      (fun ledger call h => ⟨h.1.step hlimits call, ?_⟩) ⟨hstart, nofun⟩ calls
    rcases capture_cases (h.1.limited ▸ hlimits) h.1.total call.tick call.scene call.poses with
      ⟨error, hcall⟩ | ⟨frame, left, hframed, -, -, -, hcall⟩
    · simpa only [Ledger.step, hcall] using h.2
    · simp only [Ledger.step, hcall, hframed, Option.toList_some]
      intro other hother
      rcases List.mem_append.mp hother with hother | hother
      · exact h.2 other hother
      · rw [List.mem_singleton.mp hother]
        obtain ⟨next, hnext, rfl⟩ := Option.map_eq_some_iff.mp hframed
        cases hprepare : preparePoses call.poses with
        | error error => simp [hprepare, Except.toOption] at hnext
        | ok poses =>
          simp only [hprepare, Except.toOption, Option.some.injEq] at hnext
          subst hnext
          exact preparePoses_indexed hprepare
  exact fun frame hframe => h.2 frame (h.1.longest.suffix.subset hframe)

end HitHistory
end frames

/-! ### What a sample is -/

section samples
variable {F : Type}

/-- A budget after a number of charges. -/
def QueryBudget.after (budget : QueryBudget) (charges : ℕ) : QueryBudget :=
  ⟨budget.remainingTests - charges, budget.usedTests + charges⟩

@[simp] theorem QueryBudget.after_remainingTests (budget : QueryBudget) (charges : ℕ) :
    (budget.after charges).remainingTests = budget.remainingTests - charges := rfl

variable {budget budget' : QueryBudget}

theorem QueryBudget.charge_eq_ok {α : Type}
    {next : QueryBudget → QueryBudget × Except SampleError α} {value : α} :
    budget.charge next = (budget', .ok value) ↔
      1 ≤ budget.remainingTests ∧ next (budget.after 1) = (budget', .ok value) := by
  unfold QueryBudget.charge
  split
  case isTrue hzero => simp [hzero]
  case isFalse hpos =>
    rw [QueryBudget.after]
    exact ⟨fun h => ⟨Nat.one_le_iff_ne_zero.mpr hpos, h⟩, fun h => h.2⟩

/-- One more charge, and then the others. -/
theorem QueryBudget.after_cons {n : ℕ} :
    (1 ≤ budget.remainingTests ∧ n ≤ (budget.after 1).remainingTests ∧
      budget' = (budget.after 1).after n) ↔ n + 1 ≤ budget.remainingTests ∧
        budget' = budget.after (n + 1) := by
  have hafter : (budget.after 1).after n = budget.after (n + 1) := by
    simp only [QueryBudget.after, QueryBudget.mk.injEq]
    omega
  rw [hafter, ← and_assoc]
  refine and_congr_left fun _ => ?_
  rw [QueryBudget.after_remainingTests]
  omega

namespace HitHistory

variable {eligible : CombatPose F → Bool} {poses : List (CombatPose F)}
  {budget budget' : QueryBudget}

/-- The loop over the right frame looks every eligible actor up on the left. -/
theorem checkRight_eq_ok {left : HitFrame F} (hleft : left.Indexed) :
    checkRight eligible left poses budget = (budget', .ok ()) ↔
      (poses.length ≤ budget.remainingTests ∧ budget' = budget.after poses.length) ∧
        ∀ b ∈ poses, eligible b = true →
          ∃ a ∈ left.poses, eligible a = true ∧ a.entity = b.entity ∧ a.segment = b.segment := by
  induction poses generalizing budget with
  | nil =>
    rw [checkRight, Prod.mk.injEq]
    exact ⟨fun h => ⟨⟨Nat.zero_le _, h.1.symm⟩, nofun⟩, fun h => ⟨h.1.2.symm, rfl⟩⟩
  | cons b poses ih =>
    rw [checkRight, QueryBudget.charge_eq_ok, List.length_cons, ← QueryBudget.after_cons,
      List.forall_mem_cons]
    cases heligible : eligible b with
    | false =>
      simp only [Bool.not_false, if_true, ih, Bool.false_eq_true, false_implies, true_and]
      tauto
    | true =>
      simp only [Bool.not_true, Bool.false_eq_true, if_false, true_implies]
      have hfound : ((left.pose b.entity b.segment).bind fun a =>
          require SampleError.discontinuity (eligible a = true)) = .ok () ↔
          ∃ a ∈ left.poses, eligible a = true ∧ a.entity = b.entity ∧ a.segment = b.segment := by
        simp only [bind_eq_ok, require_eq_ok, HitFrame.pose_eq_ok hleft]
        constructor
        · rintro ⟨a, ⟨hmem, hentity, hsegment⟩, ha⟩
          exact ⟨a, hmem, ha, hentity, hsegment⟩
        · rintro ⟨a, hmem, ha, hentity, hsegment⟩
          exact ⟨a, ⟨hmem, hentity, hsegment⟩, ha⟩
      rw [← hfound]
      cases (left.pose b.entity b.segment).bind fun a => require SampleError.discontinuity
        (eligible a = true) with
      | error error => simp
      | ok _ =>
        simp only [ih, true_and]
        tauto

variable [BEq F] [Blends F]

/-- The loop over the left frame samples its eligible actors. -/
theorem sampleLeft_eq_ok {fraction : ℕ} {right : Option (HitFrame F)}
    {sampled : List (CombatPose F)} :
    sampleLeft eligible fraction right poses budget = (budget', .ok sampled) ↔
      (poses.length ≤ budget.remainingTests ∧ budget' = budget.after poses.length) ∧
        (poses.filter eligible).Forall₂ (fun a pose => between eligible fraction right a =
          .ok pose) sampled := by
  induction poses generalizing budget sampled with
  | nil =>
    rw [sampleLeft, Prod.mk.injEq, Except.ok.injEq, List.filter_nil, List.forall₂_nil_left_iff]
    exact ⟨fun h => ⟨⟨Nat.zero_le _, h.1.symm⟩, h.2.symm⟩, fun h => ⟨h.1.2.symm, h.2.symm⟩⟩
  | cons a poses ih =>
    rw [sampleLeft, QueryBudget.charge_eq_ok, List.length_cons, ← QueryBudget.after_cons]
    cases heligible : eligible a with
    | false =>
      simp only [Bool.not_false, if_true, ih,
        List.filter_cons_of_neg (ne_true_of_eq_false heligible)]
      tauto
    | true =>
      simp only [Bool.not_true, Bool.false_eq_true, if_false, List.filter_cons_of_pos heligible]
      rw [List.forall₂_cons_left_iff]
      cases between eligible fraction right a with
      | error error => simp
      | ok pose =>
        have hrest : ∀ rest, sampleLeft eligible fraction right poses (budget.after 1) =
            (budget', .ok rest) ↔ _ :=
          fun rest => ih
        simp only [Prod.mk.injEq, map_eq_ok, Except.ok.injEq]
        constructor
        · rintro ⟨hone, hbudget, rest, hok, rfl⟩
          obtain ⟨⟨hle, hafter⟩, hforall⟩ := (hrest rest).mp (Prod.ext hbudget hok)
          exact ⟨⟨hone, hle, hafter⟩, pose, rest, rfl, hforall, rfl⟩
        · rintro ⟨⟨hone, hle, hafter⟩, _, rest, rfl, hforall, rfl⟩
          have hok := (hrest rest).mpr ⟨⟨hle, hafter⟩, hforall⟩
          exact ⟨hone, by rw [hok], rest, by rw [hok], rfl⟩

/-- A sample of the actor of a pose, under any budget that covers it. -/
def Sampled (history : HitHistory F) (tick fraction scene : ℕ) (a pose : CombatPose F) : Prop :=
  ∀ ample : QueryBudget, 2 ≤ ample.remainingTests →
    (history.samplePose tick fraction scene a.entity a.segment ample).2 = .ok pose

variable {history : HitHistory F} {tick fraction scene : ℕ} {left right : HitFrame F}
  {a pose : CombatPose F}

section
variable (hframe : history.frame tick scene = .ok left) (hleft : left.Indexed) (ha : a ∈ left.poses)
include hframe hleft ha

/-- At a tick, the sample of an actor is its pose. -/
theorem sampled_zero : history.Sampled tick 0 scene a pose ↔ pose = a := by
  have hpose : left.pose a.entity a.segment = .ok a :=
    (HitFrame.pose_eq_ok hleft).mpr ⟨ha, rfl, rfl⟩
  have hsample : ∀ ample : QueryBudget, 2 ≤ ample.remainingTests →
      (history.samplePose tick 0 scene a.entity a.segment ample).2 = .ok a := by
    intro ample hample
    rw [samplePose, QueryBudget.charge, if_neg (by omega), hframe, Except.bind, hpose]
    rfl
  constructor
  · intro h
    exact (Except.ok.inj ((hsample ⟨2, 0⟩ le_rfl).symm.trans (h ⟨2, 0⟩ le_rfl))).symm
  · rintro rfl
    exact hsample

/-- Between two ticks, it is the blend of its poses at both. -/
theorem sampled_next (hnext : history.nextFrame tick scene = .ok right)
    (hright : right.Indexed) (hfraction : fraction ≠ 0) :
    history.Sampled tick fraction scene a pose ↔
      ∃ b ∈ right.poses, (b.entity = a.entity ∧ b.segment = a.segment) ∧ blend a b fraction =
        .ok pose := by
  have hpose : left.pose a.entity a.segment = .ok a :=
    (HitFrame.pose_eq_ok hleft).mpr ⟨ha, rfl, rfl⟩
  have hsample : ∀ ample : QueryBudget, 2 ≤ ample.remainingTests →
      (history.samplePose tick fraction scene a.entity a.segment ample).2 =
        (right.pose a.entity a.segment).bind fun b => blend a b fraction := by
    intro ample hample
    rw [samplePose, QueryBudget.charge, if_neg (by omega), hframe, Except.bind, hpose]
    dsimp only
    rw [if_neg hfraction, QueryBudget.charge, if_neg (by dsimp only; omega), hnext]
    rfl
  have hiff : ((right.pose a.entity a.segment).bind fun b => blend a b fraction) = .ok pose ↔
      ∃ b ∈ right.poses, (b.entity = a.entity ∧ b.segment = a.segment) ∧ blend a b fraction =
        .ok pose := by
    simp only [bind_eq_ok, HitFrame.pose_eq_ok hright, and_assoc]
  rw [← hiff]
  constructor
  · intro h
    rw [← hsample ⟨2, 0⟩ le_rfl]
    exact h ⟨2, 0⟩ le_rfl
  · intro h ample hample
    rw [hsample ample hample]
    exact h

end

omit [BEq F] [Blends F] in
theorem frame_mem (h : history.frame tick scene = .ok left) : left ∈ history.frames := by
  obtain ⟨frame, hfind, hscene⟩ := bind_eq_ok.mp h
  obtain ⟨-, -, rfl⟩ := map_eq_ok.mp hscene
  exact List.mem_of_find?_eq_some (obtainOr_eq_ok.mp hfind)

omit [BEq F] [Blends F] in
theorem nextFrame_mem (h : history.nextFrame tick scene = .ok right) : right ∈ history.frames := by
  obtain ⟨next, -, hframe⟩ := bind_eq_ok.mp h
  exact frame_mem hframe

/-- The same actors are eligible at both ends. -/
structure SameActors (eligible : CombatPose F → Bool) (left right : HitFrame F) : Prop where
  stay : ∀ a ∈ left.poses, eligible a = true →
    ∃ b ∈ right.poses, eligible b = true ∧ b.entity = a.entity ∧ b.segment = a.segment
  known : ∀ b ∈ right.poses, eligible b = true →
    ∃ a ∈ left.poses, eligible a = true ∧ a.entity = b.entity ∧ a.segment = b.segment

/-- Between two ticks, the eligible actors of the left frame are sampled as alone, if they stay
eligible. -/
theorem between_next (hframe : history.frame tick scene = .ok left)
    (hleft : left.Indexed) (hnext : history.nextFrame tick scene = .ok right)
    (hright : right.Indexed) (hfraction : fraction ≠ 0) (ha : a ∈ left.poses) :
    between eligible fraction (some right) a = .ok pose ↔
      (∃ b ∈ right.poses, eligible b = true ∧ b.entity = a.entity ∧ b.segment = a.segment) ∧
        history.Sampled tick fraction scene a pose := by
  rw [sampled_next hframe hleft ha hnext hright hfraction]
  simp only [between, bind_eq_ok, require_eq_ok, HitFrame.pose_eq_ok hright]
  constructor
  · rintro ⟨b, ⟨hb, hentity, hsegment⟩, -, heligible, hblend⟩
    exact ⟨⟨b, hb, heligible, hentity, hsegment⟩, b, hb, ⟨hentity, hsegment⟩, hblend⟩
  · rintro ⟨⟨b, hb, heligible, hentity, hsegment⟩, b', hb', ⟨hentity', -⟩, hblend⟩
    obtain rfl : b = b' := hright.eq_of_index hb hb' (by rw [hentity, hentity'])
    exact ⟨b, ⟨hb, hentity, hsegment⟩, (), heligible, hblend⟩

omit [BEq F] [Blends F] in
/-- A relation that holds along two lists, with what holds of all items of the first. -/
theorem forall₂_congr_mem {α β : Type} {R S : α → β → Prop} {items : List α} {values : List β}
    (h : ∀ a ∈ items, ∀ b, R a b ↔ S a b) : items.Forall₂ R values ↔ items.Forall₂ S values := by
  induction items generalizing values with
  | nil => simp only [List.forall₂_nil_left_iff]
  | cons a items ih =>
    simp only [List.forall₂_cons_left_iff, h a List.mem_cons_self,
      ih fun b hb => h b (List.mem_cons_of_mem a hb)]

variable {frame : HitFrame F}

/-- A sample of a frame between two ticks. -/
theorem sampleFrame_next (hframe : history.frame tick scene = .ok left) (hleft : left.Indexed)
    (hnext : history.nextFrame tick scene = .ok right) (hright : right.Indexed)
    (hfraction : fraction ≠ 0) :
    (history.sampleFrame tick fraction scene eligible budget).2 = .ok frame ↔
      frame.tick = tick ∧ frame.scene = scene ∧
        (left.poses.filter eligible).Forall₂ (history.Sampled tick fraction scene) frame.poses ∧
        left.poses.length + right.poses.length ≤ budget.remainingTests ∧
          SameActors eligible left right := by
  have hforall : ∀ sampled : List (CombatPose F),
      (left.poses.filter eligible).Forall₂ (fun a pose => between eligible fraction (some right) a =
        .ok pose) sampled ↔ (∀ a ∈ left.poses, eligible a = true →
          ∃ b ∈ right.poses, eligible b = true ∧ b.entity = a.entity ∧ b.segment = a.segment) ∧
        (left.poses.filter eligible).Forall₂ (history.Sampled tick fraction scene) sampled := by
    intro sampled
    rw [forall₂_congr_mem fun a ha pose =>
      between_next hframe hleft hnext hright hfraction (List.mem_of_mem_filter ha),
      List.forall₂_and_left]
    simp only [List.mem_filter, and_imp]
  rw [sampleFrame, hframe]
  dsimp only
  rw [if_neg hfraction, hnext, Except.map]
  dsimp only
  constructor
  · intro h
    cases hsampled : sampleLeft eligible fraction (some right) left.poses budget with
    | mk budget' result =>
      rw [hsampled] at h
      cases result with
      | error error => cases h
      | ok poses =>
        obtain ⟨⟨hlength, rfl⟩, hposes⟩ := sampleLeft_eq_ok.mp hsampled
        obtain ⟨hstay, hsamples⟩ := (hforall poses).mp hposes
        obtain ⟨_, hchecked, rfl⟩ := map_eq_ok.mp h
        obtain ⟨⟨hlength', -⟩, hknown⟩ := (checkRight_eq_ok hleft).mp (Prod.ext rfl hchecked)
        refine ⟨rfl, rfl, hsamples, ?_, hstay, hknown⟩
        rw [QueryBudget.after_remainingTests] at hlength'
        omega
  · rintro ⟨htick, hscene, hsamples, hlength, hstay, hknown⟩
    obtain ⟨frameTick, frameScene, poses⟩ := frame
    obtain rfl : frameTick = tick := htick
    obtain rfl : frameScene = scene := hscene
    have hsampled :=
      sampleLeft_eq_ok.mpr ⟨⟨(Nat.le_add_right _ _).trans hlength, rfl⟩,
        (hforall poses).mpr ⟨hstay, hsamples⟩⟩
    have hchecked :=
      (@checkRight_eq_ok F eligible right.poses (budget.after left.poses.length) _ left hleft).mpr
      ⟨⟨by rw [QueryBudget.after_remainingTests]; omega, rfl⟩, hknown⟩
    rw [hsampled]
    dsimp only
    rw [hchecked]
    rfl

/-- A sample of a frame at a tick. -/
theorem sampleFrame_zero (hframe : history.frame tick scene = .ok left) (hleft : left.Indexed) :
    (history.sampleFrame tick 0 scene eligible budget).2 = .ok frame ↔
      frame.tick = tick ∧ frame.scene = scene ∧
        (left.poses.filter eligible).Forall₂ (history.Sampled tick 0 scene) frame.poses ∧
        left.poses.length ≤ budget.remainingTests := by
  have hforall : ∀ sampled : List (CombatPose F),
      (left.poses.filter eligible).Forall₂ (fun a pose => between eligible 0 none a =
        .ok pose) sampled ↔
          (left.poses.filter eligible).Forall₂ (history.Sampled tick 0 scene) sampled := by
    intro sampled
    refine forall₂_congr_mem fun a ha pose => ?_
    rw [sampled_zero hframe hleft (List.mem_of_mem_filter ha), between, Except.ok.injEq, eq_comm]
  rw [sampleFrame, hframe]
  dsimp only
  rw [if_pos rfl]
  dsimp only
  constructor
  · intro h
    cases hsampled : sampleLeft eligible 0 none left.poses budget with
    | mk budget' result =>
      rw [hsampled] at h
      cases result with
      | error error => cases h
      | ok poses =>
        obtain ⟨⟨hlength, -⟩, hposes⟩ := sampleLeft_eq_ok.mp hsampled
        cases h
        exact ⟨rfl, rfl, (hforall poses).mp hposes, hlength⟩
  · rintro ⟨htick, hscene, hsamples, hlength⟩
    obtain ⟨frameTick, frameScene, poses⟩ := frame
    obtain rfl : frameTick = tick := htick
    obtain rfl : frameScene = scene := hscene
    rw [sampleLeft_eq_ok.mpr ⟨⟨hlength, rfl⟩, (hforall poses).mpr hsamples⟩]

/-- **A frame is sampled as its actors are.**  In every history that captures lead to, a sample of a
frame succeeds exactly if its ends are retained, the budget covers their poses, the same actors are
eligible at both, and each of them can be sampled alone; and then its poses are these samples, in
the order of the left frame. -/
theorem sampleFrame_agrees [Spatial F] {limits : HistoryLimits} {start : HitHistory F}
    (hnew : new limits = .ok start) (calls : List (Call F)) (tick fraction scene : ℕ)
    (eligible : CombatPose F → Bool) (budget : QueryBudget) (frame : HitFrame F) :
    let history := (run Ledger.step ⟨start, []⟩ calls).history
    (history.sampleFrame tick fraction scene eligible budget).2 = .ok frame ↔
      frame.tick = tick ∧ frame.scene = scene ∧ ∃ left, history.frame tick scene = .ok left ∧
        (left.poses.filter eligible).Forall₂ (history.Sampled tick fraction scene) frame.poses ∧
        if fraction = 0 then left.poses.length ≤ budget.remainingTests
        else ∃ right, history.nextFrame tick scene = .ok right ∧
          left.poses.length + right.poses.length ≤ budget.remainingTests ∧
            SameActors eligible left right := by
  intro history
  have hindexed : ∀ frame ∈ history.frames, frame.Indexed := indexed_of_run hnew calls
  cases hframe : history.frame tick scene with
  | error error =>
    simp only [sampleFrame, hframe, reduceCtorEq, false_and, exists_false, and_false]
  | ok left =>
    have hleft := hindexed left (frame_mem hframe)
    simp only [Except.ok.injEq, exists_eq_left']
    by_cases hfraction : fraction = 0
    · subst hfraction
      rw [if_pos rfl, sampleFrame_zero hframe hleft]
    · rw [if_neg hfraction]
      cases hnext : history.nextFrame tick scene with
      | error error =>
        have hfail : (history.sampleFrame tick fraction scene eligible budget).2 =
            .error error := by
          rw [sampleFrame, hframe]
          dsimp only
          rw [if_neg hfraction, hnext]
          rfl
        simp only [hfail, reduceCtorEq, false_and, exists_false, and_false]
      | ok right =>
        rw [sampleFrame_next hframe hleft hnext (hindexed right (nextFrame_mem hnext)) hfraction]
        simp only [Except.ok.injEq, exists_eq_left']

/-- Blends in exact arithmetic. -/
instance exactBlends : Blends ℚ where
  alpha fraction := fraction / 65536
  lerp p q t := (p.1 + (q.1 - p.1) * t, p.2.1 + (q.2.1 - p.2.1) * t, p.2.2 + (q.2.2 - p.2.2) * t)
  slerp p _ _ := p

theorem sampleFrame_agrees_crowd :
    let history := (run Ledger.step ⟨⟨⟨2, 2, 3⟩, [], 0⟩, []⟩ crowd).history
    ∃ frame, (history.sampleFrame 2 32768 1 (·.entity.index = 3) ⟨3, 0⟩).2 = .ok frame ∧
      ∃ left, history.frame 2 1 = .ok left ∧
        (left.poses.filter (·.entity.index = 3)).Forall₂ (history.Sampled 2 32768 1)
          frame.poses := by
  intro history
  refine ⟨⟨2, 1, [ballPose 3]⟩, by decide +kernel, ?_⟩
  obtain ⟨-, -, left, hleft, hsamples, -⟩ :=
    (sampleFrame_agrees (show new ⟨2, 2, 3⟩ = .ok _ from rfl) crowd
    2 32768 1 (·.entity.index = 3) ⟨3, 0⟩ ⟨2, 1, [ballPose 3]⟩).mp (by decide +kernel)
  exact ⟨left, hleft, hsamples⟩

end HitHistory
end samples
end Core.Combat
