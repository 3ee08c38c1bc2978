import Discordium.Lib.Fallible
import Discordium.Net.Clock

/-!
# Net — Synchronization — Estimator

The clock estimator of `synchronization.rs`.  An exchange of four timestamps gives a sample: the
network round trip without the server's own processing, and an offset between the clocks that
assumes both paths took equally long.  The estimator keeps a bounded window of samples, aims at the
offset of the one with the shortest round trip, and slews its running estimate towards that target.
Durations are nanoseconds; the 128-bit words the code computes offsets in hold every value it forms,
so they are integers here.

**Tracking** (`estimates_track`).  Let the server's clock be the client's plus a constant, and let
no message arrive before it was sent.  Over any calls of `observe` and `estimate_server_time`, an
offset that is selected is off by at most half the round trip of its sample, rounded up; an estimate
is never before the last one, and between the two it advances by the local time elapsed, up to the
configured slew; and it is off by at most the worst half round trip selected so far.
-/

namespace Net
open Lib

/-! ### Samples -/

structure TimeExchange where
  clientSend : ℕ
  serverReceive : ℕ
  serverSend : ℕ
  clientReceive : ℕ

structure ClockSample where
  clientSend : ℕ
  networkRoundTrip : ℕ
  serverProcessing : ℕ
  offsetNanos : ℤ
  clientReceive : ℕ
  deriving DecidableEq

inductive ResyncReason where
  | suspension
  | offsetJump
  | leadExceeded
  | targetDiscontinuity
  deriving DecidableEq

inductive SyncError where
  | invalidConfiguration
  | invalidSample
  | notSynchronized
  | nonMonotonicTime
  | timeRange
  | resyncRequired (reason : ResyncReason)
  deriving DecidableEq

/-- `from_exchange`.  The halving truncates towards zero. -/
def ClockSample.fromExchange (exchange : TimeExchange) : Except SyncError ClockSample :=
  (obtainOr .invalidSample (checkedSub exchange.clientReceive exchange.clientSend)).bind
    fun localTime =>
    (obtainOr .invalidSample (checkedSub exchange.serverSend exchange.serverReceive)).bind
      fun processing =>
      (obtainOr .invalidSample (checkedSub localTime processing)).map fun networkRoundTrip =>
        { clientSend := exchange.clientSend
          networkRoundTrip
          serverProcessing := processing
          offsetNanos :=
            (((exchange.serverReceive : ℤ) - exchange.clientSend) +
              ((exchange.serverSend : ℤ) - exchange.clientReceive)).tdiv 2
          clientReceive := exchange.clientReceive }

/-! ### The estimator -/

structure ClockConfig where
  sampleWindow : ℕ := 32
  maximumRoundTrip : ℕ := nanosPerSecond
  offsetJump : ℕ := 250000000
  suspension : ℕ := 2 * nanosPerSecond
  /-- 20,000 parts per million slew the logical clock between 0.98 and 1.02. -/
  slewPartsPerMillion : ℕ := 20000

structure ClockEstimator where
  config : ClockConfig
  rate : TickRate
  serverEpoch : ℕ
  /-- Oldest first. -/
  samples : List ClockSample
  offset : Option ℤ
  /-- The local time of the last estimate, and the estimate. -/
  lastEstimate : Option (ℕ × ℕ)
  resync : Option ResyncReason

namespace ClockEstimator

def new (rate : TickRate) (serverEpoch : ℕ) (config : ClockConfig) :
    Except SyncError ClockEstimator :=
  if config.sampleWindow = 0 ∨ 256 < config.sampleWindow ∨ config.maximumRoundTrip = 0 ∨
      config.offsetJump = 0 ∨ config.suspension = 0 ∨ 20000 < config.slewPartsPerMillion then
    .error .invalidConfiguration
  else .ok ⟨config, rate, serverEpoch, [], none, none, none⟩

def active (clock : ClockEstimator) : Except SyncError Unit :=
  match clock.resync with
  | none => .ok ()
  | some reason => .error (.resyncRequired reason)

/-- The samples kept when one more arrives: a full window gives up its oldest. -/
def retained (clock : ClockEstimator) : List ClockSample :=
  clock.samples.drop (if clock.samples.length = clock.config.sampleWindow then 1 else 0)

/-- The order samples are chosen by: the shorter round trip, then the newer one. -/
def better (a b : ClockSample) : Bool :=
  a.networkRoundTrip < b.networkRoundTrip ∨
    a.networkRoundTrip = b.networkRoundTrip ∧ b.clientReceive < a.clientReceive

/-- `min_by_key` over the prospective window: the first of the best samples. -/
def best (clock : ClockEstimator) (sample : ClockSample) : ClockSample :=
  match clock.retained with
  | [] => sample
  | first :: rest =>
    (rest ++ [sample]).foldl (fun chosen other => if better other chosen then other
      else chosen) first

def observe (clock : ClockEstimator) (exchange : TimeExchange) :
    ClockEstimator × Except SyncError ClockSample :=
  match clock.active.bind fun _ => ClockSample.fromExchange exchange with
  | .error error => (clock, .error error)
  | .ok sample =>
    if clock.config.maximumRoundTrip < sample.networkRoundTrip then (clock, .error .invalidSample)
    else if clock.samples.getLast?.any fun old =>
        decide (sample.clientReceive < old.clientReceive ∨ sample.clientSend ≤ old.clientSend) then
      (clock, .error .nonMonotonicTime)
    else if clock.offset.any fun old =>
        decide ((clock.config.offsetJump : ℤ) < |(clock.best sample).offsetNanos - old|) then
      ({ clock with resync := some .offsetJump }, .error (.resyncRequired .offsetJump))
    else
      ({ clock with
          offset := some (clock.best sample).offsetNanos
          samples := clock.retained ++ [sample] }, .ok sample)

/-- A number of nanoseconds as a duration, which has 64 bits of seconds. -/
def duration (nanoseconds : ℤ) : Except SyncError ℕ :=
  if nanoseconds < 0 then .error .timeRange
  else if nanoseconds.toNat / nanosPerSecond ≤ wordMax 64 then .ok nanoseconds.toNat
  else .error .timeRange

/-- The end of `estimate_server_time`: the estimate is kept only if it is a duration. -/
def keepEstimate (clock : ClockEstimator) (localNow : ℕ) (estimate : ℤ) :
    ClockEstimator × Except SyncError ℕ :=
  match duration estimate with
  | .error error => (clock, .error error)
  | .ok estimate => ({ clock with lastEstimate := some (localNow, estimate) }, .ok estimate)

/-- The estimate for `elapsed` after the last one: the clock running free, adjusted towards the
target as far as the slew allows. -/
def slew (config : ClockConfig) (lastServer elapsed : ℕ) (target : ℤ) : ℤ :=
  let freeRunning : ℤ := lastServer + elapsed
  let maxAdjustment : ℤ := elapsed * config.slewPartsPerMillion / 1000000
  freeRunning + max (-maxAdjustment) (min (target - freeRunning) maxAdjustment)

def estimateServerTime (clock : ClockEstimator) (localNow : ℕ) :
    ClockEstimator × Except SyncError ℕ :=
  match clock.active.bind fun _ => obtainOr .notSynchronized clock.offset with
  | .error error => (clock, .error error)
  | .ok offset =>
    let target : ℤ := localNow + offset
    match clock.lastEstimate with
    | none => clock.keepEstimate localNow target
    | some (lastLocal, lastServer) =>
      match checkedSub localNow lastLocal with
      | none => (clock, .error .nonMonotonicTime)
      | some elapsed =>
        if clock.config.suspension < elapsed then
          ({ clock with resync := some .suspension }, .error (.resyncRequired .suspension))
        else clock.keepEstimate localNow (slew clock.config lastServer elapsed target)

/-! ### What one call does -/

section calls
variable {clock : ClockEstimator} {exchange : TimeExchange} {sample : ClockSample} {localNow : ℕ}

/-- The best sample is one of the prospective window. -/
theorem best_mem (clock : ClockEstimator) (sample : ClockSample) :
    clock.best sample ∈ clock.samples ∨ clock.best sample = sample := by
  have hfold : ∀ (others : List ClockSample) (chosen : ClockSample),
      others.foldl (fun chosen other => if better other chosen then other else chosen) chosen ∈
        chosen :: others := by
    intro others
    induction others with
    | nil => exact fun _ => List.mem_cons_self
    | cons other others ih =>
      intro chosen
      rw [List.foldl_cons]
      split
      · exact List.mem_cons_of_mem _ (ih other)
      · rcases List.mem_cons.mp (ih chosen) with h | h
        · exact List.mem_cons.mpr (.inl h)
        · exact List.mem_cons_of_mem _ (List.mem_cons_of_mem _ h)
  have hsub : clock.retained ⊆ clock.samples := List.drop_subset _ _
  unfold best
  split
  · exact .inr rfl
  next first rest heq =>
    rw [heq] at hsub
    have hmem := hfold (rest ++ [sample]) first
    rw [← List.cons_append, List.mem_append, List.mem_singleton] at hmem
    exact hmem.imp_left fun h => hsub h

/-- **Spec of `observe`**: it leaves all but a resynchronization reason alone, or selects an offset
and slides the window. -/
theorem observe_cases (clock : ClockEstimator) (exchange : TimeExchange) :
    (∃ reason error, clock.observe exchange = ({ clock with resync := reason }, .error error)) ∨
    ∃ sample, ClockSample.fromExchange exchange = .ok sample ∧
      clock.observe exchange =
        ({ clock with
            offset := some (clock.best sample).offsetNanos
            samples := clock.retained ++ [sample] }, .ok sample) := by
  unfold observe
  split
  next error _ => exact .inl ⟨_, error, rfl⟩
  next sample heq =>
    obtain ⟨-, -, hsample⟩ := bind_eq_ok.mp heq
    split
    · exact .inl ⟨_, _, rfl⟩
    split
    · exact .inl ⟨_, _, rfl⟩
    split
    · exact .inl ⟨_, _, rfl⟩
    · exact .inr ⟨sample, hsample, rfl⟩

/-- The value an estimate is made of, before it is checked to be a duration. -/
inductive Estimates (clock : ClockEstimator) (localNow : ℕ) : ℤ → Prop
  | first {offset : ℤ} (hoffset : clock.offset = some offset) (hlast : clock.lastEstimate = none) :
      Estimates clock localNow (localNow + offset)
  | later {offset : ℤ} {lastLocal lastServer : ℕ} (hoffset : clock.offset = some offset)
      (hlast : clock.lastEstimate = some (lastLocal, lastServer)) (hle : lastLocal ≤ localNow) :
      Estimates clock localNow (slew clock.config lastServer (localNow - lastLocal)
        (localNow + offset))

theorem keepEstimate_cases (clock : ClockEstimator) (localNow : ℕ) (estimate : ℤ) :
    (∃ error, clock.keepEstimate localNow estimate = (clock, .error error)) ∨
    ∃ server : ℕ, (server : ℤ) = estimate ∧ clock.keepEstimate localNow estimate =
      ({ clock with lastEstimate := some (localNow, server) }, .ok server) := by
  unfold keepEstimate duration
  split_ifs with hneg hsize
  · exact .inl ⟨_, rfl⟩
  · exact .inr ⟨estimate.toNat, Int.toNat_of_nonneg (not_lt.mp hneg), rfl⟩
  · exact .inl ⟨_, rfl⟩

/-- **Spec of `estimate_server_time`.** -/
theorem estimateServerTime_cases (clock : ClockEstimator) (localNow : ℕ) :
    (∃ reason error, clock.estimateServerTime localNow = ({ clock with resync := reason },
      .error error)) ∨
    ∃ server : ℕ, Estimates clock localNow server ∧
      clock.estimateServerTime localNow =
        ({ clock with lastEstimate := some (localNow, server) }, .ok server) := by
  unfold estimateServerTime
  split
  next error _ => exact .inl ⟨_, error, rfl⟩
  next offset heq =>
    obtain ⟨-, -, hoffset⟩ := bind_eq_ok.mp heq
    rw [obtainOr_eq_ok] at hoffset
    dsimp only
    split
    next hlast =>
      rcases clock.keepEstimate_cases localNow (localNow + offset)
        with ⟨error, h⟩ | ⟨server, hserver, h⟩
      · exact .inl ⟨_, error, h⟩
      · exact .inr ⟨server, hserver ▸ .first hoffset hlast, h⟩
    next lastLocal lastServer hlast =>
      split
      · exact .inl ⟨_, _, rfl⟩
      next elapsed helapsed =>
        obtain ⟨hle, rfl⟩ := checkedSub_eq_some.mp helapsed
        split_ifs
        · exact .inl ⟨_, _, rfl⟩
        · rcases clock.keepEstimate_cases localNow
            (slew clock.config lastServer (localNow - lastLocal) (localNow + offset)) with
            ⟨error, h⟩ | ⟨server, hserver, h⟩
          · exact .inl ⟨_, error, h⟩
          · exact .inr ⟨server, hserver ▸ .later hoffset hlast hle, h⟩

end calls

/-! ### Two clocks -/

/-- An exchange between a client and a server whose clock is `θ` ahead: neither message arrives
before it was sent. -/
def Honest (θ : ℤ) (exchange : TimeExchange) : Prop :=
  exchange.clientSend + θ ≤ exchange.serverReceive ∧ exchange.serverSend ≤
    exchange.clientReceive + θ

/-- Half a round trip, rounded up. -/
def halfTrip (sample : ClockSample) : ℕ := sample.networkRoundTrip ⌈/⌉ 2

/-- **The offset of a sample is off by at most half its round trip.** -/
theorem offset_error {θ : ℤ} {exchange : TimeExchange} {sample : ClockSample}
    (hθ : Honest θ exchange) (h : ClockSample.fromExchange exchange = .ok sample) :
    |sample.offsetNanos - θ| ≤ halfTrip sample := by
  obtain ⟨localTime, hlocal, h⟩ := bind_eq_ok.mp h
  obtain ⟨processing, hprocessing, h⟩ := bind_eq_ok.mp h
  obtain ⟨trip, htrip, rfl⟩ := map_eq_ok.mp h
  obtain ⟨hlocal, rfl⟩ := checkedSub_eq_some.mp (obtainOr_eq_ok.mp hlocal)
  obtain ⟨hprocessing, rfl⟩ := checkedSub_eq_some.mp (obtainOr_eq_ok.mp hprocessing)
  obtain ⟨htrip, rfl⟩ := checkedSub_eq_some.mp (obtainOr_eq_ok.mp htrip)
  obtain ⟨hup, hdown⟩ := hθ
  -- truncation moves an odd sum by one half, towards zero, and an even one not at all
  have htdiv : ∀ sum : ℤ, 2 * sum.tdiv 2 ≤ sum + sum % 2 ∧ sum - sum % 2 ≤ 2 * sum.tdiv 2 := by
    intro sum
    have hsign : Int.sign 2 = 1 := rfl
    rw [Int.tdiv_eq_ediv, hsign]
    split_ifs <;> omega
  have := htdiv (((exchange.serverReceive : ℤ) - exchange.clientSend) +
    ((exchange.serverSend : ℤ) - exchange.clientReceive))
  simp only [halfTrip, Nat.ceilDiv_eq_add_pred_div]
  rw [abs_le]
  omega

/-- The slew does not move past its target: whatever encloses the free-running clock and the target
encloses the estimate. -/
theorem slew_between {config : ClockConfig} {lastServer elapsed : ℕ} {target low high : ℤ}
    (hfree : low ≤ lastServer + elapsed ∧ lastServer + elapsed ≤ high)
    (htarget : low ≤ target ∧ target ≤ high) :
    low ≤ slew config lastServer elapsed target ∧ slew config lastServer elapsed target ≤ high := by
  have hadjust : (0 : ℤ) ≤ elapsed * config.slewPartsPerMillion / 1000000 := by positivity
  unfold slew
  dsimp only
  generalize (elapsed * config.slewPartsPerMillion / 1000000 : ℤ) = adjust at *
  omega

/-- The estimate advances by the time elapsed, up to the slew. -/
theorem slew_near {config : ClockConfig} {lastServer elapsed : ℕ} {target : ℤ} :
    |slew config lastServer elapsed target - (lastServer + elapsed)| ≤
      elapsed * config.slewPartsPerMillion / 1000000 := by
  have hadjust : (0 : ℤ) ≤ elapsed * config.slewPartsPerMillion / 1000000 := by positivity
  unfold slew
  dsimp only
  generalize (elapsed * config.slewPartsPerMillion / 1000000 : ℤ) = adjust at *
  rw [abs_le]
  omega

/-- With the slews `new` allows, an estimate is never before the last one. -/
theorem le_slew {config : ClockConfig} (hslew : config.slewPartsPerMillion ≤ 20000)
    {lastServer elapsed : ℕ} {target : ℤ} :
    (lastServer : ℤ) ≤ slew config lastServer elapsed target := by
  have hadjust : (elapsed * config.slewPartsPerMillion / 1000000 : ℤ) ≤ elapsed := by
    have hmul : elapsed * config.slewPartsPerMillion ≤ elapsed * 20000 :=
      Nat.mul_le_mul_left _ hslew
    have hmul : (elapsed * config.slewPartsPerMillion : ℤ) ≤ elapsed * 20000 := by
      exact_mod_cast hmul
    omega
  have hnear := abs_le.mp (@slew_near config lastServer elapsed target)
  omega

/-! ### Histories -/

inductive Call where
  | observe (exchange : TimeExchange)
  | estimate (localNow : ℕ)

/-- What a successful call did. -/
inductive Happening where
  | selected (sample : ClockSample)
  | estimated (localNow server : ℕ)
  deriving DecidableEq

def call (clock : ClockEstimator) : Call → ClockEstimator
  | .observe exchange => (clock.observe exchange).1
  | .estimate localNow => (clock.estimateServerTime localNow).1

def happening (clock : ClockEstimator) : Call → Option Happening
  | .observe exchange =>
      (clock.observe exchange).2.toOption.map fun sample => .selected (clock.best sample)
  | .estimate localNow => (clock.estimateServerTime localNow).2.toOption.map (.estimated localNow)

/-- A call on an estimator with its history, newest first. -/
def record (s : ClockEstimator × List Happening) (c : Call) : ClockEstimator × List Happening :=
  (s.1.call c, (s.1.happening c).toList ++ s.2)

/-- The samples selected in a history, newest first. -/
def selections : List Happening → List ClockSample
  | [] => []
  | .selected sample :: older => sample :: selections older
  | .estimated _ _ :: older => selections older

/-- The newest estimate of a history, with its local time. -/
def latest : List Happening → Option (ℕ × ℕ)
  | [] => none
  | .selected _ :: older => latest older
  | .estimated localNow server :: _ => some (localNow, server)

/-- The worst half round trip selected in a history. -/
def worst (history : List Happening) : ℕ := ((selections history).map halfTrip).foldr max 0

/-- What a call that succeeded did, after the calls of a history. -/
def Tracks (θ : ℤ) (config : ClockConfig) (older : List Happening) : Happening → Prop
  | .selected sample => |sample.offsetNanos - θ| ≤ halfTrip sample
  | .estimated localNow server =>
    |(server : ℤ) - (localNow + θ)| ≤ worst older ∧
      ∀ lastLocal lastServer, latest older = some (lastLocal, lastServer) →
        lastLocal ≤ localNow ∧ lastServer ≤ server ∧
          |(server : ℤ) - (lastServer + (localNow - lastLocal : ℕ))| ≤
            ((localNow - lastLocal) * config.slewPartsPerMillion / 1000000 : ℕ)

/-- What an estimator knows of its history. -/
structure Kept (θ : ℤ) (config : ClockConfig) (s : ClockEstimator × List Happening) : Prop where
  config_eq : s.1.config = config
  samples : ∀ sample ∈ s.1.samples, |sample.offsetNanos - θ| ≤ halfTrip sample
  offset : s.1.offset = (selections s.2).head?.map (·.offsetNanos)
  last : s.1.lastEstimate = latest s.2
  close : ∀ localNow server, latest s.2 = some (localNow, server) →
    |(server : ℤ) - (localNow + θ)| ≤ worst s.2
  tracks : ∀ happening older, (happening :: older) <:+ s.2 → Tracks θ config older happening

section history
variable {θ : ℤ} {config : ClockConfig} {s : ClockEstimator × List Happening}

theorem worst_selected (sample : ClockSample) (older : List Happening) :
    worst (.selected sample :: older) = max (halfTrip sample) (worst older) := rfl

theorem halfTrip_le_worst {sample : ClockSample} {history : List Happening}
    (h : sample ∈ selections history) : halfTrip sample ≤ worst history :=
  List.le_max_of_le (List.mem_map_of_mem h) le_rfl

theorem mem_selections {sample : ClockSample} {history : List Happening}
    (h : sample ∈ selections history) : ∃ older, (.selected sample :: older) <:+ history := by
  induction history with
  | nil => exact absurd h List.not_mem_nil
  | cons happening history ih =>
    have hrest : sample ∈ selections history → ∃ older, (.selected sample :: older) <:+ happening ::
        history :=
      fun h => (ih h).imp fun _ hsuffix => hsuffix.trans (List.suffix_cons _ _)
    cases happening with
    | selected first =>
      rcases List.mem_cons.mp h with rfl | h
      · exact ⟨history, List.suffix_rfl⟩
      · exact hrest h
    | estimated localNow server => exact hrest h

section
variable (h : Kept θ config s)
include h

/-- The offset an estimator aims at is off by at most the worst half round trip selected so far. -/
theorem Kept.offset_close {offset : ℤ} (hoffset : s.1.offset = some offset) :
    |offset - θ| ≤ worst s.2 := by
  rw [h.offset, Option.map_eq_some_iff] at hoffset
  obtain ⟨sample, hhead, rfl⟩ := hoffset
  have hmem : sample ∈ selections s.2 := List.mem_of_head? hhead
  obtain ⟨older, hsuffix⟩ := mem_selections hmem
  have hsample : |sample.offsetNanos - θ| ≤ halfTrip sample := h.tracks _ older hsuffix
  exact hsample.trans (by exact_mod_cast halfTrip_le_worst hmem)

theorem Kept.resync (reason : Option ResyncReason) :
    Kept θ config ({ s.1 with resync := reason }, s.2) :=
  ⟨h.config_eq, h.samples, h.offset, h.last, h.close, h.tracks⟩

/-- One more happening, which itself tracks. -/
theorem Kept.tracks_cons {latest : Happening} (hlatest : Tracks θ config s.2 latest) :
    ∀ happening older, (happening :: older) <:+ latest :: s.2 →
      Tracks θ config older happening := by
  intro happening older hsuffix
  rcases List.suffix_cons_iff.mp hsuffix with heq | hsuffix
  · obtain ⟨rfl, rfl⟩ := List.cons.inj heq
    exact hlatest
  · exact h.tracks happening older hsuffix

theorem Kept.observe {exchange : TimeExchange} (hθ : Honest θ exchange) :
    Kept θ config (record s (.observe exchange)) := by
  rcases s.1.observe_cases exchange with ⟨reason, error, heq⟩ | ⟨sample, hsample, heq⟩
  · have hrecord : record s (.observe exchange) = ({ s.1 with resync := reason }, s.2) := by
      simp only [record, call, happening, heq]
      rfl
    rw [hrecord]
    exact h.resync reason
  · have hrecord : record s (.observe exchange) =
        ({ s.1 with
            offset := some (s.1.best sample).offsetNanos
            samples := s.1.retained ++ [sample] }, .selected (s.1.best sample) :: s.2) := by
      simp only [record, call, happening, heq]
      rfl
    have hnew := offset_error hθ hsample
    have hbest : |(s.1.best sample).offsetNanos - θ| ≤ halfTrip (s.1.best sample) := by
      rcases s.1.best_mem sample with hmem | hmem
      · exact h.samples _ hmem
      · rw [hmem]
        exact hnew
    rw [hrecord]
    refine ⟨h.config_eq, ?_, rfl, h.last, ?_, h.tracks_cons hbest⟩
    · intro other hother
      rcases List.mem_append.mp hother with hother | hother
      · exact h.samples other (List.drop_subset _ _ hother)
      · rw [List.mem_singleton.mp hother]
        exact hnew
    · intro localNow server hlatest
      refine (h.close localNow server hlatest).trans ?_
      rw [worst_selected]
      exact_mod_cast le_max_right _ _

/-- What an estimate is, beside the history it extends. -/
theorem Kept.estimates (hslew : config.slewPartsPerMillion ≤ 20000)
    {localNow server : ℕ} (hserver : Estimates s.1 localNow server) :
    Tracks θ config s.2 (.estimated localNow server) := by
  generalize hestimate : (server : ℤ) = estimate at hserver
  cases hserver with
  | first hoffset hlast =>
    have hclose := h.offset_close hoffset
    refine ⟨?_, fun lastLocal lastServer hlatest => ?_⟩
    · rw [hestimate]
      convert hclose using 2
      ring
    · rw [← h.last, hlast] at hlatest
      cases hlatest
  | @later offset lastLocal lastServer hoffset hlast hle =>
    have htarget := abs_le.mp (h.offset_close hoffset)
    have hfree := abs_le.mp (h.close lastLocal lastServer (h.last.symm.trans hlast))
    have hbetween := @slew_between s.1.config lastServer (localNow - lastLocal) (localNow + offset)
      (localNow + θ - worst s.2) (localNow + θ + worst s.2) (by omega) (by omega)
    refine ⟨abs_le.mpr (by omega), fun lastLocal' lastServer' hlatest => ?_⟩
    rw [← h.last, hlast] at hlatest
    cases hlatest
    have hmono := @le_slew s.1.config (h.config_eq ▸ hslew) lastServer (localNow - lastLocal)
      (localNow + offset)
    refine ⟨hle, by omega, ?_⟩
    rw [hestimate, ← h.config_eq]
    exact_mod_cast slew_near

theorem Kept.estimate (hslew : config.slewPartsPerMillion ≤ 20000) (localNow : ℕ) :
    Kept θ config (record s (.estimate localNow)) := by
  rcases s.1.estimateServerTime_cases localNow with ⟨reason, error, heq⟩ | ⟨server, hserver, heq⟩
  · have hrecord : record s (.estimate localNow) = ({ s.1 with resync := reason }, s.2) := by
      simp only [record, call, happening, heq]
      rfl
    rw [hrecord]
    exact h.resync reason
  · have hrecord : record s (.estimate localNow) =
        ({ s.1 with lastEstimate := some (localNow, server) },
          .estimated localNow server :: s.2) := by
      simp only [record, call, happening, heq]
      rfl
    have htracks := h.estimates hslew hserver
    rw [hrecord]
    refine ⟨h.config_eq, h.samples, h.offset, rfl, ?_, h.tracks_cons htracks⟩
    intro localNow' server' hlatest
    cases hlatest
    exact htracks.1

end

end history

/-- **Every selected offset and every estimate tracks the server's clock**, in every run of calls
whose exchanges are honest. -/
theorem estimates_track {rate : TickRate} {serverEpoch : ℕ} {config : ClockConfig}
    {fresh : ClockEstimator} (h : new rate serverEpoch config = .ok fresh) (θ : ℤ)
    {calls : List Call} (hcalls : ∀ exchange, .observe exchange ∈ calls → Honest θ exchange) :
    (run record (fresh, []) calls).1.offset =
        (selections (run record (fresh, []) calls).2).head?.map (·.offsetNanos) ∧
      ∀ happening older, (happening :: older) <:+ (run record (fresh, []) calls).2 →
        Tracks θ config older happening := by
  unfold new at h
  split_ifs at h with hvalid
  cases h
  have hslew : config.slewPartsPerMillion ≤ 20000 := by
    by_contra hslew
    exact hvalid (by simp [not_le.mp hslew])
  have hfresh : Kept θ config (⟨config, rate, serverEpoch, [], none, none, none⟩, []) :=
    ⟨rfl, by simp, rfl, rfl, by simp [latest], by simp⟩
  have hmeets : Meets record (fun _ c => ∀ exchange, c = Call.observe exchange → Honest θ exchange)
      (⟨config, rate, serverEpoch, [], none, none, none⟩, []) calls := by
    refine Meets.of_forall ?_ _
    rintro c hc exchange rfl
    exact hcalls exchange hc
  have hkept := hmeets.invariant (I := Kept θ config) (fun s c hs hc => ?_) hfresh
  · exact ⟨hkept.offset, hkept.tracks⟩
  · cases c with
    | observe exchange => exact hs.observe (hc exchange rfl)
    | estimate localNow => exact hs.estimate hslew localNow

/-- A server five nanoseconds ahead, asked over a path three times as long one way: the offset is
six, and so is the first estimate's lead. -/
theorem estimates_track_lopsided : ∃ fresh, new ⟨60, by decide, by decide⟩ 0 {} = .ok fresh ∧
    (run record (fresh, []) [.observe ⟨10, 18, 20, 16⟩, .estimate 100]).2 =
      [.estimated 100 106, .selected ⟨10, 4, 2, 6, 16⟩] ∧
    Tracks 5 {} [.selected ⟨10, 4, 2, 6, 16⟩] (.estimated 100 106) := by
  have h : new ⟨60, by decide, by decide⟩ 0 {} =
      .ok ⟨{}, ⟨60, by decide, by decide⟩, 0, [], none, none, none⟩ := rfl
  have hrun : (run record (⟨{}, ⟨60, by decide, by decide⟩, 0, [], none, none, none⟩, [])
      [.observe ⟨10, 18, 20, 16⟩, .estimate 100]).2 =
        [.estimated 100 106, .selected ⟨10, 4, 2, 6, 16⟩] := by
    decide +kernel
  have honest : ∀ exchange,
      Call.observe exchange ∈ [Call.observe ⟨10, 18, 20, 16⟩, .estimate 100] →
        Honest 5 exchange := by
    simp [Honest]
  exact ⟨_, h, hrun, (estimates_track h 5 honest).2 _ _ (hrun ▸ List.suffix_rfl)⟩

end ClockEstimator
end Net
