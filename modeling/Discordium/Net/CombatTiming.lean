import Discordium.Lib.Fallible
import Discordium.Lib.Words
import Discordium.Net.Types

/-!
# Net — Combat timing

The bounds of `combat_timing.rs` on a client's request to look into the past.  A point in time is a
number of 65,536ths of a tick.  The query is the requested point moved into an interval that the
policy, a snapshot the server did send and the retained history each bound; every tick is a 64-bit
word, and the 128-bit words that points are computed in hold every sum.

**The view** (`validateView_bounds`).  A view that is granted lies within all the bounds and is the
closest such point to the request; and one is granted whenever the checks pass and some point lies
within the bounds.
-/

namespace Net
open Lib

structure TimingPolicy where
  maximumSampleAge : ℕ
  maximumFutureSample : ℕ
  minimumExecutionLead : ℕ
  maximumExecutionLead : ℕ
  minimumPresentationAge : ℕ
  maximumPresentationAge : ℕ
  maximumRewind : ℕ
  maximumReferenceAdvance : ℕ

structure ViewRequest where
  sampledAt : ℕ
  sampledFraction : ℕ
  viewedAt : ℕ
  viewedFraction : ℕ
  reference : ℕ

structure TimingContext where
  connection : ℕ
  scene : ℕ
  arrival : ℕ
  execution : ℕ
  oldestHistory : ℕ
  newestHistory : ℕ

/-- What the authority's own record says of a snapshot it sent. -/
structure SentReference where
  connection : ℕ
  scene : ℕ
  stateAt : ℕ
  sentAt : ℕ

structure ValidatedView where
  execution : ℕ
  query : ℕ
  fraction : ℕ
  clamped : Bool

inductive TimingError where
  | invalidPolicy
  | invalidContext
  | invalidSample
  | invalidExecutionLead
  | unknownReference
  | wrongReference
  | outsidePolicy
  | missingHistory
  | overflow

namespace CombatTiming

/-- The point of a tick and a fraction of it. -/
def units (tick fraction : ℕ) : ℕ := tick * 65536 + fraction

/-- The length of a number of ticks. -/
def span (ticks : ℕ) : ℕ := ticks * 65536

/-- The point the client sampled its input at. -/
def sampled (request : ViewRequest) : ℕ := units request.sampledAt request.sampledFraction

/-- The point the client asks for. -/
def requested (request : ViewRequest) : ℕ := units request.viewedAt request.viewedFraction

/-! ### The checks -/

variable (policy : TimingPolicy) (context : TimingContext) (request : ViewRequest)

def checkPolicy : Except TimingError Unit :=
  require .invalidPolicy (policy.minimumExecutionLead ≤ policy.maximumExecutionLead ∧
    policy.minimumPresentationAge ≤ policy.maximumPresentationAge)

def checkContext : Except TimingError Unit :=
  require .invalidContext (context.connection ≠ 0 ∧ context.scene ≠ 0 ∧
    context.arrival ≤ context.execution ∧ context.oldestHistory ≤ context.newestHistory ∧
      context.newestHistory ≤ context.execution)

def checkSample : Except TimingError Unit :=
  require .invalidSample (units context.arrival 0 - span policy.maximumSampleAge ≤ sampled request ∧
    sampled request ≤ units context.arrival 0 + span policy.maximumFutureSample)

def checkLead : Except TimingError Unit :=
  (obtainOr .invalidExecutionLead (checkedSub (units context.execution 0) (sampled request))).bind
    fun lead =>
    require .invalidExecutionLead (span policy.minimumExecutionLead ≤ lead ∧
      lead ≤ span policy.maximumExecutionLead)

def checkReference (sentReference : ℕ → Option SentReference) : Except TimingError SentReference :=
  (require .unknownReference (request.reference ≠ 0)).bind fun _ =>
    (obtainOr .unknownReference (sentReference request.reference)).bind fun reference =>
      (require .wrongReference (reference.connection = context.connection ∧
        reference.scene = context.scene ∧ reference.stateAt ≤ reference.sentAt ∧
          reference.sentAt ≤ context.arrival)).map fun _ => reference

/-! ### The view -/

/-- The interval the policy and the reference allow; the lower bound does not go below zero. -/
def allowed (reference : SentReference) : Except TimingError (ℕ × ℕ) :=
  let lower := max (max (sampled request - span policy.maximumPresentationAge)
    (units context.execution 0 - span policy.maximumRewind)) (units reference.stateAt 0)
  (obtainOr .outsidePolicy (checkedSub (sampled request) (span policy.minimumPresentationAge))).bind
    fun latest =>
    let upper := min (min latest (units context.execution 0))
      (units reference.stateAt 0 + span policy.maximumReferenceAdvance)
    (require .outsidePolicy (lower ≤ upper)).map fun _ => (lower, upper)

/-- The part of the interval there is history for. -/
def remembered (interval : ℕ × ℕ) : Except TimingError (ℕ × ℕ) :=
  let lower := max interval.1 (units context.oldestHistory 0)
  let upper := min interval.2 (units context.newestHistory 0)
  (require .missingHistory (lower ≤ upper)).map fun _ => (lower, upper)

/-- The requested point clamped to an interval. -/
def view (interval : ℕ × ℕ) : Except TimingError ValidatedView :=
  let query := max interval.1 (min (requested request) interval.2)
  (require .overflow (query / 65536 ≤ wordMax 64)).map fun _ =>
    ⟨context.execution, query / 65536, query % 65536, query ≠ requested request⟩

def validateView (sentReference : ℕ → Option SentReference) : Except TimingError ValidatedView :=
  (checkPolicy policy).bind fun _ =>
    (checkContext context).bind fun _ =>
      (checkSample policy context request).bind fun _ =>
        (checkLead policy context request).bind fun _ =>
          (checkReference context request sentReference).bind fun reference =>
            (allowed policy context request reference).bind fun interval =>
              (remembered context interval).bind (view context request)

/-! ### What is granted -/

/-- The policy, context, sample, lead and reference checks pass. -/
structure Screened (reference : SentReference) : Prop where
  lead_ordered : policy.minimumExecutionLead ≤ policy.maximumExecutionLead
  age_ordered : policy.minimumPresentationAge ≤ policy.maximumPresentationAge
  identified : context.connection ≠ 0 ∧ context.scene ≠ 0
  arrived : context.arrival ≤ context.execution
  history_ordered : context.oldestHistory ≤ context.newestHistory
  history_past : context.newestHistory ≤ context.execution
  sample_recent : (units context.arrival 0 : ℤ) - span policy.maximumSampleAge ≤ sampled request
  sample_near : (sampled request : ℤ) ≤ units context.arrival 0 + span policy.maximumFutureSample
  lead_enough : (span policy.minimumExecutionLead : ℤ) ≤ units context.execution 0 - sampled request
  lead_bounded : (units context.execution 0 : ℤ) - sampled request ≤
    span policy.maximumExecutionLead
  named : request.reference ≠ 0
  connection : reference.connection = context.connection
  scene : reference.scene = context.scene
  sent_after : reference.stateAt ≤ reference.sentAt
  sent_before : reference.sentAt ≤ context.arrival

/-- The bounds on the point a view is granted for. -/
structure Within (reference : SentReference) (point : ℤ) : Prop where
  age_most : (sampled request : ℤ) - span policy.maximumPresentationAge ≤ point
  rewind : (units context.execution 0 : ℤ) - span policy.maximumRewind ≤ point
  known : (units reference.stateAt 0 : ℤ) ≤ point
  oldest : (units context.oldestHistory 0 : ℤ) ≤ point
  age_least : point ≤ (sampled request : ℤ) - span policy.minimumPresentationAge
  executed : point ≤ units context.execution 0
  advance : point ≤ (units reference.stateAt 0 : ℤ) + span policy.maximumReferenceAdvance
  newest : point ≤ units context.newestHistory 0

/-! The arithmetic of the bounds, over any numbers.  A difference that saturates at zero bounds a
natural number like the difference itself. -/

theorem sub_le_iff_cast {a b c : ℕ} : a - b ≤ c ↔ (a : ℤ) - b ≤ c := by omega

variable {execution sample least most : ℕ}

theorem lead_iff_cast :
    (sample ≤ execution ∧ least ≤ execution - sample ∧ execution - sample ≤ most) ↔
      (least : ℤ) ≤ execution - sample ∧ (execution : ℤ) - sample ≤ most := by omega

theorem bounds_iff_cast {rewind known oldest advance newest : ℕ}
    (hleast : least ≤ sample) {point : ℤ} :
    (((max (max (max (sample - most) (execution - rewind)) known) oldest : ℕ) : ℤ) ≤ point ∧
      point ≤ (min (min (min (sample - least) execution) (known + advance)) newest : ℕ)) ↔
    ((sample : ℤ) - most ≤ point ∧ (execution : ℤ) - rewind ≤ point ∧ (known : ℤ) ≤ point ∧
      (oldest : ℤ) ≤ point) ∧ point ≤ (sample : ℤ) - least ∧ point ≤ execution ∧
      point ≤ (known : ℤ) + advance ∧ point ≤ newest := by
  simp only [Nat.cast_max, Nat.cast_min, Nat.cast_add, Nat.cast_sub hleast, max_le_iff, le_min_iff]
  omega

/-- No point of an interval is closer to a number than the number clamped to it. -/
theorem clamp_closest {low high wanted : ℕ} {point : ℤ} (hlow : (low : ℤ) ≤ point)
    (hhigh : point ≤ high) :
    |((max low (min wanted high) : ℕ) : ℤ) - wanted| ≤ |point - wanted| := by
  rcases abs_cases (point - (wanted : ℤ)) with habs | habs <;>
    rw [habs.1, abs_le] <;> omega

section
variable {policy context request}
variable {sentReference : ℕ → Option SentReference} {reference : SentReference} {interval : ℕ × ℕ}

/-- **The checks pass exactly for a screened request.** -/
theorem checks_ok :
    (checkPolicy policy = .ok () ∧ checkContext context = .ok () ∧
      checkSample policy context request = .ok () ∧ checkLead policy context request = .ok () ∧
        checkReference context request sentReference = .ok reference) ↔
    sentReference request.reference = some reference ∧
      Screened policy context request reference := by
  simp only [checkPolicy, checkContext, checkSample, checkLead, checkReference, require_eq_ok,
    bind_eq_ok, map_eq_ok, obtainOr_eq_ok, checkedSub_eq_some]
  constructor
  · rintro ⟨hpolicy, hcontext, hsample, ⟨lead, ⟨hsub, rfl⟩, hlead⟩, -, hnamed, reference', hsent, -,
      hreference, rfl⟩
    obtain ⟨henough, hbounded⟩ := lead_iff_cast.mp ⟨hsub, hlead⟩
    exact ⟨hsent, ⟨hpolicy.1, hpolicy.2, ⟨hcontext.1, hcontext.2.1⟩, hcontext.2.2.1,
      hcontext.2.2.2.1, hcontext.2.2.2.2, sub_le_iff_cast.mp hsample.1, by exact_mod_cast hsample.2,
      henough, hbounded, hnamed,
      hreference.1, hreference.2.1, hreference.2.2.1, hreference.2.2.2⟩⟩
  · rintro ⟨hsent, h⟩
    obtain ⟨hsub, hlead⟩ := lead_iff_cast.mpr ⟨h.lead_enough, h.lead_bounded⟩
    exact ⟨⟨h.lead_ordered, h.age_ordered⟩,
      ⟨h.identified.1, h.identified.2, h.arrived, h.history_ordered, h.history_past⟩,
      ⟨sub_le_iff_cast.mpr h.sample_recent, by exact_mod_cast h.sample_near⟩,
      ⟨_, ⟨hsub, rfl⟩, hlead⟩, (), h.named, reference, hsent, (),
      ⟨h.connection, h.scene, h.sent_after, h.sent_before⟩, rfl⟩

theorem within_iff {point : ℤ} (hleast : span policy.minimumPresentationAge ≤ sampled request) :
    Within policy context request reference point ↔
      ((max (max (max (sampled request - span policy.maximumPresentationAge)
        (units context.execution 0 - span policy.maximumRewind)) (units reference.stateAt 0))
        (units context.oldestHistory 0) : ℕ) : ℤ) ≤ point ∧
      point ≤ (min (min (min (sampled request - span policy.minimumPresentationAge)
        (units context.execution 0))
        (units reference.stateAt 0 + span policy.maximumReferenceAdvance))
          (units context.newestHistory 0) : ℕ) := by
  rw [bounds_iff_cast hleast]
  exact ⟨fun h => ⟨⟨h.age_most, h.rewind, h.known, h.oldest⟩, h.age_least, h.executed, h.advance,
    h.newest⟩, fun h => ⟨h.1.1, h.1.2.1, h.1.2.2.1, h.1.2.2.2, h.2.1, h.2.2.1, h.2.2.2.1,
      h.2.2.2.2⟩⟩

/-- **The interval is that of the points within the bounds.** -/
theorem interval_within {first : ℕ × ℕ} (hallowed : allowed policy context request reference =
    .ok first)
    (hremembered : remembered context first = .ok interval) :
    interval.1 ≤ interval.2 ∧
      ∀ point : ℤ, Within policy context request reference point ↔
        (interval.1 : ℤ) ≤ point ∧ point ≤ interval.2 := by
  obtain ⟨latest, hlatest, hfirst⟩ := bind_eq_ok.mp hallowed
  obtain ⟨hsub, rfl⟩ := checkedSub_eq_some.mp (obtainOr_eq_ok.mp hlatest)
  obtain ⟨-, -, rfl⟩ := map_eq_ok.mp hfirst
  obtain ⟨_, hle, rfl⟩ := map_eq_ok.mp hremembered
  exact ⟨require_eq_ok.mp hle, fun point => within_iff hsub⟩

/-- If a point is within the bounds, there is an interval. -/
theorem interval_of_within {point : ℤ} (h : Within policy context request reference point) :
    ∃ first, allowed policy context request reference = .ok first ∧
      ∃ interval, remembered context first = .ok interval := by
  -- a point at or after a snapshot is not before tick 0, so the sample is past the least age
  have hsub : span policy.minimumPresentationAge ≤ sampled request := by
    have hpos : (0 : ℤ) ≤ (sampled request : ℤ) - span policy.minimumPresentationAge :=
      (Int.natCast_nonneg _).trans (h.known.trans h.age_least)
    exact_mod_cast sub_nonneg.mp hpos
  obtain ⟨hlow, hhigh⟩ := (within_iff hsub).mp h
  have hle := Int.ofNat_le.mp (hlow.trans hhigh)
  have hallowed : allowed policy context request reference = .ok
      (max (max (sampled request - span policy.maximumPresentationAge)
        (units context.execution 0 - span policy.maximumRewind)) (units reference.stateAt 0),
      min (min (sampled request - span policy.minimumPresentationAge) (units context.execution 0))
        (units reference.stateAt 0 + span policy.maximumReferenceAdvance)) := by
    refine bind_eq_ok.mpr ⟨_, obtainOr_eq_ok.mpr (checkedSub_eq_some.mpr ⟨hsub, rfl⟩), ?_⟩
    exact map_eq_ok.mpr ⟨(),
      require_of ((le_max_left _ _).trans (hle.trans (min_le_left _ _))), rfl⟩
  exact ⟨_, hallowed, _, map_eq_ok.mpr ⟨(), require_of hle, rfl⟩⟩

/-- The point a view is of. -/
def queryPoint (granted : ValidatedView) : ℕ := units granted.query granted.fraction

/-- **The view of an interval** is of the closest point in it. -/
theorem view_ok {granted : ValidatedView} (hinterval : interval.1 ≤ interval.2)
    (h : view context request interval = .ok granted) :
    granted.execution = context.execution ∧ granted.fraction < 65536 ∧
      interval.1 ≤ queryPoint granted ∧ queryPoint granted ≤ interval.2 ∧
      (∀ point : ℤ, (interval.1 : ℤ) ≤ point → point ≤ interval.2 →
        |(queryPoint granted : ℤ) - requested request| ≤ |point - requested request|) ∧
      (granted.clamped = true ↔ queryPoint granted ≠ requested request) := by
  obtain ⟨_, -, rfl⟩ := map_eq_ok.mp h
  have hpoint : units (max interval.1 (min (requested request) interval.2) / 65536)
      (max interval.1 (min (requested request) interval.2) % 65536) =
        max interval.1 (min (requested request) interval.2) := by
    rw [units, Nat.mul_comm]
    exact Nat.div_add_mod _ _
  simp only [queryPoint, hpoint, decide_eq_true_eq, true_and, iff_self, and_true]
  refine ⟨Nat.mod_lt _ (by decide), le_max_left _ _, max_le hinterval (min_le_right _ _), ?_⟩
  exact fun point hlow hhigh => clamp_closest hlow hhigh

/-- A point of the interval that is a 64-bit tick is granted. -/
theorem view_of_le (hinterval : interval.1 ≤ interval.2) (hword : interval.2 / 65536 ≤ wordMax 64) :
    ∃ granted, view context request interval = .ok granted := by
  have hquery : max interval.1 (min (requested request) interval.2) ≤ interval.2 :=
    max_le hinterval (min_le_right _ _)
  exact ⟨_, map_eq_ok.mpr ⟨(), require_of ((Nat.div_le_div_right hquery).trans hword), rfl⟩⟩

end

/-- **Bounds of a view.**  A granted view is of the closest point to the request within all bounds;
and if the checks pass and any point is within them, a view is granted. -/
theorem validateView_bounds (sentReference : ℕ → Option SentReference) :
    (∀ granted, validateView policy context request sentReference = .ok granted →
      ∃ reference, sentReference request.reference = some reference ∧
        Screened policy context request reference ∧
        granted.execution = context.execution ∧ granted.fraction < 65536 ∧
        Within policy context request reference (queryPoint granted) ∧
        (∀ point : ℤ, Within policy context request reference point →
          |(queryPoint granted : ℤ) - requested request| ≤ |point - requested request|) ∧
        (granted.clamped = true ↔ queryPoint granted ≠ requested request)) ∧
    (∀ reference, sentReference request.reference = some reference →
      Screened policy context request reference → context.execution ≤ wordMax 64 →
      (∃ point : ℤ, Within policy context request reference point) →
      ∃ granted, validateView policy context request sentReference = .ok granted) := by
  constructor
  · intro granted h
    obtain ⟨_, hpolicy, h⟩ := bind_eq_ok.mp h
    obtain ⟨_, hcontext, h⟩ := bind_eq_ok.mp h
    obtain ⟨_, hsample, h⟩ := bind_eq_ok.mp h
    obtain ⟨_, hlead, h⟩ := bind_eq_ok.mp h
    obtain ⟨reference, hreference, h⟩ := bind_eq_ok.mp h
    obtain ⟨first, hallowed, h⟩ := bind_eq_ok.mp h
    obtain ⟨interval, hremembered, h⟩ := bind_eq_ok.mp h
    obtain ⟨hsent, hscreened⟩ := checks_ok.mp ⟨hpolicy, hcontext, hsample, hlead, hreference⟩
    obtain ⟨hinterval, hwithin⟩ := interval_within hallowed hremembered
    obtain ⟨hexecution, hfraction, hlow, hhigh, hclosest, hclamped⟩ := view_ok hinterval h
    refine ⟨reference, hsent, hscreened, hexecution, hfraction, (hwithin _).mpr ⟨?_, ?_⟩,
      fun point hpoint => ?_, hclamped⟩
    · exact_mod_cast hlow
    · exact_mod_cast hhigh
    · exact hclosest point ((hwithin point).mp hpoint).1 ((hwithin point).mp hpoint).2
  · rintro reference hsent hscreened hword ⟨point, hpoint⟩
    obtain ⟨hpolicy, hcontext, hsample, hlead, hreference⟩ := checks_ok.mpr ⟨hsent, hscreened⟩
    obtain ⟨first, hallowed, interval, hremembered⟩ := interval_of_within hpoint
    obtain ⟨hinterval, hwithin⟩ := interval_within hallowed hremembered
    -- the upper end is within the bounds itself, so it is not past the execution tick
    have hupper := ((hwithin interval.2).mpr ⟨by exact_mod_cast hinterval, le_rfl⟩).executed
    have htick : interval.2 / 65536 ≤ wordMax 64 := by
      refine le_trans (Nat.div_le_of_le_mul ?_) hword
      have hle := Int.ofNat_le.mp hupper
      rwa [units, Nat.add_zero, Nat.mul_comm] at hle
    obtain ⟨granted, hgranted⟩ := @view_of_le context request interval hinterval htick
    refine ⟨granted, bind_eq_ok.mpr ⟨_, hpolicy, bind_eq_ok.mpr ⟨_, hcontext,
      bind_eq_ok.mpr ⟨_, hsample, bind_eq_ok.mpr ⟨_, hlead, bind_eq_ok.mpr ⟨_, hreference,
        bind_eq_ok.mpr ⟨_, hallowed, bind_eq_ok.mpr ⟨_, hremembered, hgranted⟩⟩⟩⟩⟩⟩⟩⟩

end CombatTiming
end Net
