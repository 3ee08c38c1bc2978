import Discordium.Lib.Fallible
import Discordium.Lib.Machine
import Discordium.Lib.Retention
import Discordium.Lib.Words

/-!
# Core — Combat — History

The hit history of `combat/history/mod.rs`: frames of combat poses, one for each captured tick,
retired from the oldest until both retention caps leave room for the next.  A frame's poses are
sorted by entity, checked one by one and normalised before anything is retired.  Floating point and
the quaternion arithmetic of the vector library are what `Spatial` says of them.

**Retention** (`capture_retains`).  In every run, the history has the longest suffix of the accepted
frames that is within both caps, and its counter is the number of poses in them; a capture that is
accepted appends the poses it was given, normalised, and one that is rejected changes nothing.
-/

namespace Core.Combat
open Lib

/-- Single-precision numbers, with the two operations on quaternions a capture uses. -/
class Spatial (F : Type) where
  /-- A literal of the source. -/
  lit : ℚ → F
  isFinite : F → Bool
  abs : F → F
  sub : F → F → F
  le : F → F → Bool
  lt : F → F → Bool
  lengthSquared : F × F × F × F → F
  normalize : F × F × F × F → F × F × F × F

structure ColliderKey where
  index : ℕ
  generation : ℕ
  deriving DecidableEq

/-- The order keys are compared in: the index, then the generation. -/
def ColliderKey.le (key other : ColliderKey) : Bool :=
  key.index < other.index || (key.index = other.index && key.generation ≤ other.generation)

inductive CollisionShape (F : Type) where
  | box (halfExtents : F × F × F)
  | ball (radius : F)
  | capsule (halfSegment radius : F)
  deriving DecidableEq

structure StaticCollider (F : Type) where
  key : ColliderKey
  position : F × F × F
  rotation : F × F × F × F
  shape : CollisionShape F

structure CombatPose (F : Type) where
  entity : ColliderKey
  segment : ℕ
  poseRevision : ℕ
  position : F × F × F
  rotation : F × F × F × F
  shape : CollisionShape F
  /-- The four words of `HitMetadata`. -/
  hitMetadata : ℕ × ℕ × ℕ × ℕ
  deriving DecidableEq

structure HistoryLimits where
  frames : ℕ
  posesPerFrame : ℕ
  totalPoses : ℕ

/-- The errors of `HistoryError` a history's own construction and captures give. -/
inductive HistoryError where
  | invalidLimits
  | invalidPose
  | invalidFrame
  | capacity

structure HitFrame (F : Type) where
  tick : ℕ
  scene : ℕ
  poses : List (CombatPose F)
  deriving DecidableEq

structure HitHistory (F : Type) where
  limits : HistoryLimits
  frames : List (HitFrame F)
  totalPoses : ℕ

/-! ### Poses -/

section
variable {F : Type} [Spatial F]
open Spatial

def CombatPose.collider (pose : CombatPose F) : StaticCollider F :=
  ⟨pose.entity, pose.position, pose.rotation, pose.shape⟩

/-- `MAX_COORDINATE`. -/
def maxCoordinate : F := lit 100000

/-- `MAX_EXTENT`. -/
def maxExtent : F := lit 10000

def bounded (values : List F) (limit : F) : Bool :=
  values.all fun v => isFinite v && le (abs v) limit

/-- The closure `positive` of `prepare_collider`. -/
def positive (v : F) : Bool := isFinite v && lt (lit 0) v && le v maxExtent

/-- `prepare_collider` succeeds; a capture drops the prepared shape. -/
def prepareCollider (collider : StaticCollider F) : Bool :=
  collider.key.index ≠ 0 && collider.key.generation ≠ 0 &&
  bounded [collider.position.1, collider.position.2.1, collider.position.2.2] maxCoordinate &&
  bounded [collider.rotation.1, collider.rotation.2.1, collider.rotation.2.2.1,
    collider.rotation.2.2.2] (lit 1.001) &&
  !lt (lit 0.001) (abs (sub (lengthSquared collider.rotation) (lit 1))) &&
  match collider.shape with
  | .box halfExtents =>
      positive halfExtents.1 && positive halfExtents.2.1 && positive halfExtents.2.2
  | .ball radius => positive radius
  | .capsule halfSegment radius =>
    positive radius && isFinite halfSegment && le (lit 0) halfSegment && le halfSegment maxExtent

/-- The loop of `capture` over the sorted poses. -/
def checkPoses : Option ℕ → List (CombatPose F) → Except HistoryError (List (CombatPose F))
  | _, [] => .ok []
  | previous, pose :: poses =>
    if pose.segment = 0 ∨ pose.poseRevision = 0 ∨ previous = some pose.entity.index
      then .error .invalidPose
    else if !prepareCollider pose.collider then .error .invalidPose
    else
      (checkPoses (some pose.entity.index) poses).map fun next =>
        { pose with rotation := normalize pose.rotation } :: next

/-- The poses of a frame: sorted by entity, checked and normalised. -/
def preparePoses (poses : List (CombatPose F)) : Except HistoryError (List (CombatPose F)) :=
  checkPoses none (poses.insertionSort fun pose other => pose.entity.le other.entity)

end

/-! ### The history -/

namespace HitHistory

variable {F : Type}

def new (limits : HistoryLimits) : Except HistoryError (HitHistory F) :=
  if ¬(1 ≤ limits.frames ∧ limits.frames ≤ 512) ∨ ¬(1 ≤ limits.posesPerFrame ∧
    limits.posesPerFrame ≤ 4096) ∨
      limits.totalPoses < limits.posesPerFrame ∨ limits.totalPoses > 131072 then
    .error .invalidLimits
  else .ok ⟨limits, [], 0⟩

/-- The loop of `capture` that retires the oldest frames; nothing when the queue is popped empty or
the counter would go below zero. -/
def retire (limits : HistoryLimits) (incoming : ℕ) :
    List (HitFrame F) → ℕ → Option (List (HitFrame F) × ℕ)
  | [], totalPoses =>
    if 0 ≥ limits.frames ∨ totalPoses + incoming > limits.totalPoses then none
    else some ([], totalPoses)
  | old :: frames, totalPoses =>
    if (old :: frames).length ≥ limits.frames ∨ totalPoses + incoming > limits.totalPoses then
      (checkedSub totalPoses old.poses.length).bind fun totalPoses =>
        retire limits incoming frames totalPoses
    else some (old :: frames, totalPoses)

def capture [Spatial F] (history : HitHistory F) (tick scene : ℕ) (poses : List (CombatPose F)) :
    HitHistory F × Answer HistoryError Unit :=
  if scene = 0 ∨ history.frames.getLast?.any (tick ≤ ·.tick) then (history, .err .invalidFrame)
  else if poses.length > history.limits.posesPerFrame then (history, .err .capacity)
  else
    match preparePoses poses with
    | .error error => (history, .err error)
    | .ok next =>
      match retire history.limits next.length history.frames history.totalPoses with
      | none => (history, .panic)
      | some (frames, totalPoses) =>
        ({ history with
            frames := frames ++ [⟨tick, scene, next⟩]
            totalPoses := totalPoses + next.length },
          .ok ())

/-! ### One capture -/

/-- The number of poses in some frames. -/
def poseCount (frames : List (HitFrame F)) : ℕ := (frames.map (·.poses.length)).sum

/-- Both retention caps. -/
def Capped (limits : HistoryLimits) (frames : List (HitFrame F)) : Prop :=
  frames.length ≤ limits.frames ∧ poseCount frames ≤ limits.totalPoses

/-- What `HitHistory::new` accepts. -/
structure Valid (limits : HistoryLimits) : Prop where
  frames : 1 ≤ limits.frames
  poses : limits.posesPerFrame ≤ limits.totalPoses

theorem poseCount_cons (frame : HitFrame F) (frames : List (HitFrame F)) :
    poseCount (frame :: frames) = frame.poses.length + poseCount frames := by
  simp [poseCount]

theorem poseCount_snoc (frames : List (HitFrame F)) (frame : HitFrame F) :
    poseCount (frames ++ [frame]) = poseCount frames + frame.poses.length := by
  simp [poseCount]

theorem capped_snoc {limits : HistoryLimits} {frames : List (HitFrame F)} {frame : HitFrame F} :
    Capped limits (frames ++ [frame]) ↔
      ¬(frames.length ≥ limits.frames ∨ poseCount frames + frame.poses.length >
        limits.totalPoses) := by
  rw [Capped, poseCount_snoc, List.length_append, List.length_singleton]
  omega

/-- **Retiring** succeeds, and leaves the longest part of the queue with room for the frame. -/
theorem retire_longest {limits : HistoryLimits} (hlimits : Valid limits) {frame : HitFrame F}
    (hframe : frame.poses.length ≤ limits.posesPerFrame) (frames : List (HitFrame F)) :
    ∃ left, retire limits frame.poses.length frames (poseCount frames) = some
      (left, poseCount left) ∧
        Longest (fun frames => Capped limits (frames ++ [frame])) frames left := by
  induction frames with
  | nil =>
    -- an empty queue has room: a frame is allowed, and the caps on poses are ordered
    have hroom : ¬(0 ≥ limits.frames ∨ poseCount ([] : List (HitFrame F)) + frame.poses.length >
        limits.totalPoses) := by
      have := hlimits.frames
      have := hlimits.poses
      simp only [poseCount, List.map_nil, List.sum_nil]
      omega
    exact ⟨[], if_neg hroom, .self (capped_snoc.mpr hroom)⟩
  | cons old frames ih =>
    unfold retire
    split
    case isTrue hover =>
      obtain ⟨left, hleft, hlongest⟩ := ih
      refine ⟨left, ?_, hlongest.cons fun hfits => capped_snoc.mp hfits hover⟩
      rw [poseCount_cons, checkedSub_eq_some.mpr ⟨Nat.le_add_right _ _,
        (Nat.add_sub_cancel_left ..).symm⟩]
      exact hleft
    case isFalse hroom => exact ⟨old :: frames, rfl, .self (capped_snoc.mpr hroom)⟩

/-- The frame a capture appends when it is accepted. -/
def framed [Spatial F] (tick scene : ℕ) (poses : List (CombatPose F)) : Option (HitFrame F) :=
  (preparePoses poses).toOption.map fun next => ⟨tick, scene, next⟩

variable [Spatial F]

/-- A pose with its rotation normalised. -/
def normalized (pose : CombatPose F) : CombatPose F :=
  { pose with rotation := Spatial.normalize pose.rotation }

theorem checkPoses_ok {previous : Option ℕ} {poses next : List (CombatPose F)}
    (h : checkPoses previous poses = .ok next) : next = poses.map normalized := by
  induction poses generalizing previous next with
  | nil =>
    cases h
    rfl
  | cons pose poses ih =>
    unfold checkPoses at h
    split at h
    · cases h
    · split at h
      · cases h
      · obtain ⟨rest, hrest, rfl⟩ := map_eq_ok.mp h
        rw [List.map_cons, ih hrest]
        rfl

/-- A frame that is framed has the poses it was given, normalised and in another order. -/
theorem framed_eq_some {tick scene : ℕ} {poses : List (CombatPose F)} {frame : HitFrame F}
    (h : framed tick scene poses = some frame) :
    frame.tick = tick ∧ frame.scene = scene ∧ frame.poses.Perm (poses.map normalized) := by
  obtain ⟨next, hnext, rfl⟩ := Option.map_eq_some_iff.mp h
  cases hposes : preparePoses poses with
  | error error =>
    rw [hposes] at hnext
    cases hnext
  | ok prepared =>
    rw [hposes] at hnext
    cases hnext
    refine ⟨rfl, rfl, ?_⟩
    rw [checkPoses_ok hposes]
    exact (List.perm_insertionSort _ poses).map normalized

/-- **A capture** of a history within its books is rejected and changes nothing, or appends the
frame to the longest part of the queue with room for it. -/
theorem capture_cases {history : HitHistory F} (hlimits : Valid history.limits)
    (htotal : history.totalPoses = poseCount history.frames) (tick scene : ℕ)
    (poses : List (CombatPose F)) :
    (∃ error, history.capture tick scene poses = (history, .err error)) ∨
      ∃ frame left, framed tick scene poses = some frame ∧ frame.tick = tick ∧
        (∀ last ∈ history.frames.getLast?, last.tick < tick) ∧
        Longest (fun frames => Capped history.limits (frames ++ [frame])) history.frames left ∧
        history.capture tick scene poses = ({ history with
          frames := left ++ [frame]
          totalPoses := poseCount (left ++ [frame]) }, .ok ()) := by
  unfold capture
  split
  case isTrue => exact .inl ⟨_, rfl⟩
  case isFalse hframe =>
    split
    case isTrue => exact .inl ⟨_, rfl⟩
    case isFalse hsize =>
      split
      case h_1 error hposes => exact .inl ⟨error, rfl⟩
      case h_2 next hposes =>
        have hlength : next.length ≤ history.limits.posesPerFrame := by
          rw [checkPoses_ok hposes, List.length_map, List.length_insertionSort]
          exact not_lt.mp hsize
        obtain ⟨left, hleft, hlongest⟩ :=
          @retire_longest F history.limits hlimits ⟨tick, scene, next⟩ hlength history.frames
        refine .inr ⟨⟨tick, scene, next⟩, left, ?_, rfl, fun last hlast => ?_, hlongest, ?_⟩
        · rw [framed, hposes]
          rfl
        · rw [Option.mem_def] at hlast
          simp only [hlast, Option.any_some, decide_eq_true_eq, not_or, not_le] at hframe
          exact hframe.2
        · rw [htotal, hleft, poseCount_snoc]

/-! ### Runs -/

structure Call (F : Type) where
  tick : ℕ
  scene : ℕ
  poses : List (CombatPose F)

/-- A history and the frames it has accepted. -/
structure Ledger (F : Type) where
  history : HitHistory F
  accepted : List (HitFrame F)

namespace Ledger

def step (ledger : Ledger F) (call : Call F) : Ledger F :=
  match ledger.history.capture call.tick call.scene call.poses with
  | (history, .ok _) =>
      ⟨history, ledger.accepted ++ (framed call.tick call.scene call.poses).toList⟩
  | (history, _) => { ledger with history := history }

/-- The books of a history. -/
structure Retains (limits : HistoryLimits) (ledger : Ledger F) : Prop where
  limited : ledger.history.limits = limits
  longest : Longest (Capped limits) ledger.accepted ledger.history.frames
  total : ledger.history.totalPoses = poseCount ledger.history.frames
  increasing : ledger.accepted.Pairwise (·.tick < ·.tick)
  last : ledger.history.frames.getLast? = ledger.accepted.getLast?

omit [Spatial F] in
/-- In a list of increasing ticks, none is after the last. -/
theorem tick_le_last {frames : List (HitFrame F)} (h : frames.Pairwise (·.tick < ·.tick)) :
    ∀ frame ∈ frames, ∃ last ∈ frames.getLast?, frame.tick ≤ last.tick := by
  intro frame hframe
  rcases List.eq_nil_or_concat' frames with rfl | ⟨before, last, rfl⟩
  · cases hframe
  · refine ⟨last, List.getLast?_concat, ?_⟩
    rcases List.mem_append.mp hframe with hbefore | hlast
    · exact ((List.pairwise_append.mp h).2.2 frame hbefore last (List.mem_singleton_self last)).le
    · rw [List.mem_singleton.mp hlast]

theorem Retains.step {limits : HistoryLimits} (hlimits : Valid limits) {ledger : Ledger F}
    (h : Retains limits ledger) (call : Call F) : Retains limits (ledger.step call) := by
  rcases capture_cases (h.limited ▸ hlimits) h.total call.tick call.scene call.poses with
    ⟨error, hcall⟩ | ⟨frame, left, hframed, htick, hlast, hleft, hcall⟩
  · simpa only [Ledger.step, hcall] using h
  · simp only [Ledger.step, hcall, hframed, Option.toList_some]
    rw [h.limited] at hleft
    refine ⟨h.limited, h.longest.snoc hleft fun frames hcapped => ?_, rfl, ?_, ?_⟩
    · rw [Capped, poseCount_snoc, List.length_append] at hcapped
      exact ⟨(Nat.le_add_right _ _).trans hcapped.1, (Nat.le_add_right _ _).trans hcapped.2⟩
    · refine List.pairwise_append.mpr ⟨h.increasing, List.pairwise_singleton _ _,
        fun earlier hearlier new hnew => ?_⟩
      obtain ⟨last, hmem, hle⟩ := tick_le_last h.increasing earlier hearlier
      rw [List.mem_singleton.mp hnew, htick]
      exact hle.trans_lt (hlast last (h.last ▸ hmem))
    · rw [List.getLast?_concat, List.getLast?_concat]

omit [Spatial F] in
theorem Retains.new {limits : HistoryLimits} {history : HitHistory F}
    (h : HitHistory.new limits = .ok history) :
    Valid limits ∧ Retains limits ⟨history, []⟩ := by
  unfold HitHistory.new at h
  split at h
  · cases h
  case isFalse hvalid =>
    cases h
    exact ⟨⟨by omega, by omega⟩, rfl, .self ⟨Nat.zero_le _, Nat.zero_le _⟩, rfl, .nil, rfl⟩

end Ledger

/-- **Retention of hit frames.**  After any captures: the frames are the longest suffix of the
accepted ones within both caps, their ticks increase and the pose counter counts their poses; and
whatever is captured next, the queue is not popped empty, the counter does not go below zero, an
accepted capture appends the frame of its poses, and a rejected one changes nothing. -/
theorem capture_retains {limits : HistoryLimits} {start : HitHistory F}
    (hnew : new limits = .ok start) (calls : List (Call F)) :
    let ledger := run Ledger.step ⟨start, []⟩ calls
    Longest (Capped limits) ledger.accepted ledger.history.frames ∧
    ledger.history.frames.Pairwise (·.tick < ·.tick) ∧
    ledger.history.totalPoses = poseCount ledger.history.frames ∧
    ∀ tick scene poses, (ledger.history.capture tick scene poses).2 ≠ .panic ∧
      ((ledger.history.capture tick scene poses).2 = .ok () →
        ∃ frame, (ledger.history.capture tick scene poses).1.frames.getLast? = some frame ∧
          frame.tick = tick ∧ frame.scene = scene ∧ frame.poses.Perm (poses.map normalized)) ∧
      ∀ error, (ledger.history.capture tick scene poses).2 = .err error →
        (ledger.history.capture tick scene poses).1 = ledger.history := by
  intro ledger
  obtain ⟨hlimits, hstart⟩ := Ledger.Retains.new hnew
  have h : Ledger.Retains limits ledger :=
    run_invariant (fun _ call h => h.step hlimits call) hstart calls
  refine ⟨h.longest, h.increasing.sublist h.longest.suffix.sublist, h.total,
    fun tick scene poses => ?_⟩
  rcases capture_cases (h.limited ▸ hlimits) h.total tick scene poses with
    ⟨error, hcall⟩ | ⟨frame, left, hframed, -, -, -, hcall⟩ <;> rw [hcall]
  · exact ⟨by simp, fun hok => (by cases hok), fun _ _ => rfl⟩
  · exact ⟨by simp, fun _ => ⟨frame, List.getLast?_concat, framed_eq_some hframed⟩,
      fun error herror => by cases herror⟩

/-- Exact arithmetic in place of single precision. -/
instance exactSpatial : Spatial ℚ where
  lit q := q
  isFinite _ := true
  abs q := |q|
  sub := (· - ·)
  le p q := p ≤ q
  lt p q := p < q
  lengthSquared q := q.1 * q.1 + q.2.1 * q.2.1 + q.2.2.1 * q.2.2.1 + q.2.2.2 * q.2.2.2
  normalize q := q

/-- A ball at the origin. -/
def ballPose (index : ℕ) : CombatPose ℚ :=
  ⟨⟨index, 1⟩, 1, 1, (0, 0, 0), (0, 0, 0, 1), .ball 1, (0, 0, 0, 0)⟩

/-- Three captures, with one between them whose tick is not new. -/
def crowd : List (Call ℚ) :=
  [⟨1, 1, [ballPose 2, ballPose 1]⟩, ⟨2, 1, [ballPose 3]⟩, ⟨2, 1, []⟩,
    ⟨3, 1, [ballPose 1, ballPose 3]⟩]

theorem capture_retains_crowd :
    let ledger := run Ledger.step ⟨⟨⟨2, 2, 3⟩, [], 0⟩, []⟩ crowd
    Longest (Capped ⟨2, 2, 3⟩) ledger.accepted ledger.history.frames ∧
      ledger.accepted.map (·.tick) = [1, 2, 3] ∧ ledger.history.frames.map (·.tick) = [2, 3] :=
  ⟨(capture_retains (show new ⟨2, 2, 3⟩ = .ok _ from rfl) crowd).1, by decide +kernel,
    by decide +kernel⟩

end HitHistory
end Core.Combat
