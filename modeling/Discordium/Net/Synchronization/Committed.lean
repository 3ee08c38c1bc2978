import Discordium.Net.Synchronization.Estimator

/-!
# Net — Synchronization — Committed

The committed clock of `synchronization/committed.rs`: simulation progress extrapolated from a tick
paired with the server time it was reported at.  A report carries a whole tick, so it says where in
that tick the server was only up to a tick; `observe` keeps the phase it had inferred while reports
agree with it within one tick.

**Steady phase** (`observe_keeps_phase`).  Let every report, the first included, be of the tick that
a server with a fixed epoch is in.  Then no `observe` changes the extrapolated time at any later
instant, if the first report lies less than `⌊10⁹/hz⌋` nanoseconds into its tick.  That covers every
first report where the rate divides a second; elsewhere a tick can be one nanosecond longer than
another, and a first report in that last nanosecond loses its phase (`observe_changes_phase`).
-/

namespace Net
open Lib

/-- The checked sum of two durations. -/
def addDuration (a b : ℕ) : Option ℕ := if a + b ≤ durationMax then some (a + b) else none

structure CommittedClock where
  rate : TickRate
  anchorTick : ℕ
  anchorTime : ℕ
  phaseOffsetNanos : ℤ
  committed : ℕ
  maximumAhead : ℕ
  deriving DecidableEq

namespace CommittedClock

def new (rate : TickRate) (tick serverTime maximumAhead : ℕ) : Except SyncError CommittedClock :=
  if maximumAhead = 0 then .error .invalidConfiguration
  else .ok ⟨rate, tick, serverTime, 0, tick, maximumAhead⟩

def commit (clock : CommittedClock) (tick : ℕ) : CommittedClock :=
  { clock with committed := max clock.committed tick }

def extrapolatedElapsed (clock : CommittedClock) (serverNow : ℕ) : Except SyncError ℕ :=
  obtainOr .timeRange <|
    ((clock.rate.deadline clock.anchorTick).bind fun anchor =>
      if clock.phaseOffsetNanos < 0 then checkedSub anchor clock.phaseOffsetNanos.natAbs
      else addDuration anchor clock.phaseOffsetNanos.natAbs).bind fun time =>
    addDuration time (serverNow - clock.anchorTime)

/-- The offset as a 64-bit word, if it is one. -/
def signedWord (offset : ℤ) : Option ℤ :=
  if -9223372036854775808 ≤ offset ∧ offset ≤ 9223372036854775807 then some offset else none

/-- The phase of an extrapolation beside a reported tick: kept if it falls strictly between the
deadlines of the neighboring ticks. -/
def acceptedPhase (preceding following : Option ℕ) : Option (ℕ × ℕ) → ℤ
  | none => 0
  | some (previous, reported) =>
    if preceding.any (· < previous) && following.any (previous < ·) then
      (signedWord ((previous : ℤ) - reported)).getD 0
    else 0

/-- The phase of a report past the anchor. -/
def inferredPhase (clock : CommittedClock) (tick serverTime : ℕ) : ℤ :=
  let preceding := clock.rate.deadline (tick - 1)
  let following := (checkedNext tick).bind clock.rate.deadline
  acceptedPhase preceding following <|
    (clock.extrapolatedElapsed serverTime).toOption.bind fun previous =>
      (clock.rate.deadline tick).map (previous, ·)

def observe (clock : CommittedClock) (tick serverTime : ℕ) : Except SyncError CommittedClock :=
  if serverTime < clock.anchorTime ∨ tick < clock.anchorTick then .error .nonMonotonicTime
  else
    let phaseOffsetNanos :=
      if clock.anchorTick < tick ∧ clock.anchorTime < serverTime
        then clock.inferredPhase tick serverTime
      else if tick = clock.anchorTick ∧ serverTime = clock.anchorTime then clock.phaseOffsetNanos
      else 0
    .ok ({ clock with anchorTick := tick, anchorTime := serverTime, phaseOffsetNanos }.commit tick)

/-! ### Reports -/

/-- A committed tick and the server time it was reported at. -/
structure Report where
  tick : ℕ
  serverTime : ℕ

/-- The end of a tick, in nanoseconds after the epoch. -/
def ending (rate : TickRate) (tick : ℕ) : ℕ := tick * nanosPerSecond ⌈/⌉ rate.hz

/-- The server with tick zero at `epoch` is in the reported tick, and the deadlines around it
exist. -/
structure Current (rate : TickRate) (epoch : ℕ) (report : Report) : Prop where
  begun : epoch + ending rate report.tick ≤ report.serverTime
  within : report.serverTime < epoch + ending rate (report.tick + 1)
  tick_le : report.tick + 1 ≤ wordMax 64
  time_le : report.serverTime ≤ durationMax

/-- The second report is of a later tick, at a later time. -/
def After (first second : Report) : Prop :=
  first.tick < second.tick ∧ first.serverTime < second.serverTime

/-- The time of a report past the end of its tick. -/
def into (rate : TickRate) (epoch : ℕ) (report : Report) : ℕ :=
  report.serverTime - (epoch + ending rate report.tick)

/-! ### Lengths of ticks -/

section lengths
variable {rate : TickRate} {tick : ℕ}

/-- Every tick lasts at least the whole nanoseconds of a period. -/
theorem ending_add_le : ending rate tick + nanosPerSecond / rate.hz ≤ ending rate (tick + 1) := by
  have hceil : (tick + 1) * nanosPerSecond ≤ rate.hz * ending rate (tick + 1) :=
    (ceilDiv_le_iff_le_mul rate.hz_pos).mp le_rfl
  have hperiod : rate.hz * (nanosPerSecond / rate.hz) ≤ nanosPerSecond := Nat.mul_div_le _ _
  have hle : ending rate tick ≤ ending rate (tick + 1) - nanosPerSecond / rate.hz := by
    rw [ending, ceilDiv_le_iff_le_mul rate.hz_pos, Nat.mul_sub]
    rw [Nat.add_mul] at hceil
    omega
  have hsecond : nanosPerSecond / rate.hz ≤ ending rate (tick + 1) := by
    refine Nat.le_of_mul_le_mul_left (hperiod.trans ?_) rate.hz_pos
    exact (Nat.le_mul_of_pos_left _ (Nat.succ_pos tick)).trans hceil
  omega

/-- A tick lasts no longer than a second. -/
theorem ending_succ_le : ending rate (tick + 1) ≤ ending rate tick + nanosPerSecond := by
  have hceil : tick * nanosPerSecond ≤ rate.hz * ending rate tick :=
    (ceilDiv_le_iff_le_mul rate.hz_pos).mp le_rfl
  have hhz : nanosPerSecond ≤ rate.hz * nanosPerSecond := Nat.le_mul_of_pos_left _ rate.hz_pos
  rw [ending, ceilDiv_le_iff_le_mul rate.hz_pos, Nat.mul_add, Nat.add_mul]
  omega

/-- Where the rate divides a second, all ticks last equally long. -/
theorem ending_succ_of_dvd (h : rate.hz ∣ nanosPerSecond) :
    ending rate (tick + 1) = ending rate tick + nanosPerSecond / rate.hz := by
  obtain ⟨period, hperiod⟩ := h
  have hending : ∀ n, ending rate n = n * period := by
    intro n
    rw [ending, hperiod, Nat.mul_left_comm]
    exact smul_ceilDiv rate.hz_pos _
  rw [hending, hending, hperiod, Nat.mul_div_cancel_left _ rate.hz_pos, Nat.add_mul, Nat.one_mul]

end lengths

/-! ### One report -/

theorem acceptedPhase_inside {preceding following previous reported : ℕ}
    (hlow : preceding < previous) (hhigh : previous < following)
    (hpreceding : reported ≤ preceding + nanosPerSecond)
    (hfollowing : following ≤ reported + nanosPerSecond) :
    acceptedPhase (some preceding) (some following) (some (previous, reported)) =
      previous - reported := by
  have hsecond : nanosPerSecond = 1000000000 := rfl
  have hword : signedWord ((previous : ℤ) - reported) = some ((previous : ℤ) - reported) :=
    if_pos (by omega)
  rw [acceptedPhase, hword]
  simp only [Option.any_some, hlow, hhigh, decide_true, Bool.and_self, if_true, Option.getD_some]

/-- The clock extrapolates `lag` behind the time since the epoch. -/
structure Steady (rate : TickRate) (epoch lag : ℕ) (clock : CommittedClock) : Prop where
  rate_eq : clock.rate = rate
  aligned : (ending rate clock.anchorTick : ℤ) + clock.phaseOffsetNanos = clock.anchorTime -
    (epoch + lag)
  started : epoch + lag ≤ clock.anchorTime
  tick_le : clock.anchorTick ≤ wordMax 64
  time_le : clock.anchorTime ≤ durationMax

section report
variable {rate : TickRate} {epoch lag serverNow : ℕ} {clock : CommittedClock} {report : Report}

theorem Steady.extrapolatedElapsed (h : Steady rate epoch lag clock)
    (hnow : clock.anchorTime ≤ serverNow) :
    clock.extrapolatedElapsed serverNow = obtainOr .timeRange
      (addDuration (serverNow - (epoch + lag)) 0) := by
  have hdeadline : clock.rate.deadline clock.anchorTick = some (ending rate clock.anchorTick) := by
    rw [h.rate_eq]
    exact rate.deadline_eq h.tick_le
  have haligned := h.aligned
  have hstarted := h.started
  have htime := h.time_le
  -- the anchor moved by the phase is the anchor's own time on the extrapolated clock
  have hanchor : (if clock.phaseOffsetNanos < 0 then
      checkedSub (ending rate clock.anchorTick) clock.phaseOffsetNanos.natAbs
      else addDuration (ending rate clock.anchorTick) clock.phaseOffsetNanos.natAbs) =
        some (clock.anchorTime - (epoch + lag)) := by
    split_ifs
    · exact checkedSub_eq_some.mpr ⟨by omega, by omega⟩
    · rw [addDuration, if_pos (by omega)]
      congr 1
      omega
  have hsum : clock.anchorTime - (epoch + lag) + (serverNow - clock.anchorTime) =
      serverNow - (epoch + lag) + 0 := by
    omega
  rw [CommittedClock.extrapolatedElapsed, hdeadline, Option.bind_some, hanchor, Option.bind_some,
    addDuration, hsum, addDuration]

/-- A current report is accepted with the phase the clock had. -/
theorem Steady.inferredPhase (h : Steady rate epoch lag clock)
    (hcurrent : Current rate epoch report) (hlag : lag < nanosPerSecond / rate.hz)
    (htick : clock.anchorTick < report.tick) (htime : clock.anchorTime < report.serverTime) :
    clock.inferredPhase report.tick report.serverTime =
      (report.serverTime - (epoch + lag) : ℕ) - (ending rate report.tick : ℤ) := by
  obtain ⟨hbegun, hwithin, htick_le, htime_le⟩ := hcurrent
  have hstarted := h.started
  have hextrapolated : clock.extrapolatedElapsed report.serverTime =
      .ok (report.serverTime - (epoch + lag)) := by
    rw [h.extrapolatedElapsed htime.le, addDuration, if_pos (by omega)]
    rfl
  have hdeadline : ∀ tick, tick ≤ wordMax 64 → clock.rate.deadline tick =
      some (ending rate tick) := by
    intro tick hle
    rw [h.rate_eq]
    exact rate.deadline_eq hle
  -- the tick before lasts longer than the lag
  have hlonger : ending rate (report.tick - 1) + nanosPerSecond / rate.hz ≤
      ending rate report.tick := by
    have := @ending_add_le rate (report.tick - 1)
    rwa [Nat.sub_add_cancel (by omega)] at this
  have hnext : checkedNext report.tick = some (report.tick + 1) :=
    checkedNext_eq_some.mpr ⟨rfl, htick_le⟩
  have hphase : clock.inferredPhase report.tick report.serverTime =
      acceptedPhase (some (ending rate (report.tick - 1))) (some (ending rate (report.tick + 1)))
        (some (report.serverTime - (epoch + lag), ending rate report.tick)) := by
    rw [CommittedClock.inferredPhase, hnext, Option.bind_some,
      hdeadline (report.tick - 1) (by omega), hdeadline report.tick (by omega),
      hdeadline _ htick_le, hextrapolated]
    rfl
  rw [hphase]
  refine acceptedPhase_inside (by omega) (by omega) ?_ ending_succ_le
  have := @ending_succ_le rate (report.tick - 1)
  rwa [Nat.sub_add_cancel (by omega)] at this

/-- **A current report past the anchor leaves the lag of the clock as it is.** -/
theorem Steady.observe (h : Steady rate epoch lag clock) (hcurrent : Current rate epoch report)
    (hlag : lag < nanosPerSecond / rate.hz) (htick : clock.anchorTick < report.tick)
    (htime : clock.anchorTime < report.serverTime) :
    ∃ after, clock.observe report.tick report.serverTime = .ok after ∧ Steady rate epoch lag after ∧
      after.anchorTick = report.tick ∧ after.anchorTime = report.serverTime := by
  have hobserve : clock.observe report.tick report.serverTime =
      .ok { clock with
        anchorTick := report.tick
        anchorTime := report.serverTime
        phaseOffsetNanos := (report.serverTime - (epoch + lag) : ℕ) - (ending rate report.tick : ℤ)
        committed := max clock.committed report.tick } := by
    rw [CommittedClock.observe, if_neg (by omega), if_pos ⟨htick, htime⟩,
      h.inferredPhase hcurrent hlag htick htime]
    rfl
  have hstarted : epoch + lag ≤ report.serverTime := h.started.trans htime.le
  refine ⟨_, hobserve, ⟨h.rate_eq, ?_, hstarted, ?_, hcurrent.time_le⟩, rfl, rfl⟩
  · dsimp only
    omega
  · exact (Nat.le_succ _).trans hcurrent.tick_le

end report

/-! ### Runs of reports -/

/-- The clock after the reports, or the first error. -/
def observeAll (clock : CommittedClock) (reports : List Report) : Except SyncError CommittedClock :=
  loop (fun clock report => clock.observe report.tick report.serverTime) clock reports

def anchor (clock : CommittedClock) : Report := ⟨clock.anchorTick, clock.anchorTime⟩

section run
variable {rate : TickRate} {epoch lag : ℕ} {clock : CommittedClock} {start report : Report}
  {before later : List Report}

/-- The reports before the last are taken in with the lag the clock had, and so is the last. -/
theorem Steady.observeAll (h : Steady rate epoch lag clock) (hlag : lag < nanosPerSecond / rate.hz)
    (hcurrent : ∀ r ∈ before ++ report :: later, Current rate epoch r)
    (hafter : List.IsChain After (clock.anchor :: (before ++ report :: later))) :
    ∃ reached after, clock.observeAll before = .ok reached ∧
      reached.observe report.tick report.serverTime = .ok after ∧
      ∀ serverNow, report.serverTime ≤ serverNow →
        after.extrapolatedElapsed serverNow = reached.extrapolatedElapsed serverNow := by
  induction before generalizing clock with
  | nil =>
    obtain ⟨htick, htime⟩ := (List.isChain_cons_cons.mp hafter).1
    obtain ⟨after, hobserve, hsteady, -, hanchor⟩ :=
      h.observe (hcurrent report List.mem_cons_self) hlag htick htime
    refine ⟨clock, after, rfl, hobserve, fun serverNow hnow => ?_⟩
    rw [hsteady.extrapolatedElapsed (hanchor.trans_le hnow),
      h.extrapolatedElapsed (htime.le.trans hnow)]
  | cons first before ih =>
    obtain ⟨⟨htick, htime⟩, hrest⟩ := List.isChain_cons_cons.mp hafter
    obtain ⟨next, hobserve, hsteady, hnextTick, hnextTime⟩ :=
      h.observe (hcurrent first List.mem_cons_self) hlag htick htime
    have hanchor : next.anchor = first := by
      rw [anchor, hnextTick, hnextTime]
    obtain ⟨reached, after, hall, hlast⟩ := ih hsteady
      (fun r hr => hcurrent r (List.mem_cons_of_mem _ hr)) (hanchor ▸ hrest)
    exact ⟨reached, after, bind_eq_ok.mpr ⟨next, hobserve, hall⟩, hlast⟩

theorem Steady.new {maximumAhead : ℕ} (h : new rate start.tick start.serverTime maximumAhead =
    .ok clock)
    (hcurrent : Current rate epoch start) :
    Steady rate epoch (into rate epoch start) clock ∧ clock.anchor = start := by
  unfold CommittedClock.new at h
  split_ifs at h
  cases h
  have hbegun := hcurrent.begun
  refine ⟨⟨rfl, ?_, ?_, (Nat.le_succ _).trans hcurrent.tick_le, hcurrent.time_le⟩, rfl⟩
  all_goals
    dsimp only [into]
    omega

/-- **Current reports keep the phase.**  No report of the sequence changes what the clock
extrapolates to at its time or later. -/
theorem observe_keeps_phase {maximumAhead : ℕ}
    (h : CommittedClock.new rate start.tick start.serverTime maximumAhead = .ok clock)
    (hcurrent : ∀ r ∈ start :: (before ++ report :: later), Current rate epoch r)
    (hafter : List.IsChain After (start :: (before ++ report :: later)))
    (hinto : rate.hz ∣ nanosPerSecond ∨ into rate epoch start < nanosPerSecond / rate.hz) :
    ∃ reached after, clock.observeAll before = .ok reached ∧
      reached.observe report.tick report.serverTime = .ok after ∧
      ∀ serverNow, report.serverTime ≤ serverNow →
        after.extrapolatedElapsed serverNow = reached.extrapolatedElapsed serverNow := by
  have hstart := hcurrent start List.mem_cons_self
  obtain ⟨hsteady, hanchor⟩ := Steady.new h hstart
  have hlag : into rate epoch start < nanosPerSecond / rate.hz := by
    refine hinto.elim (fun hdvd => ?_) id
    -- all ticks are equally long, and the first report is within its own
    have hwithin := hstart.within
    rw [ending_succ_of_dvd hdvd, ← Nat.add_assoc] at hwithin
    exact Nat.sub_lt_left_of_lt_add hstart.begun hwithin
  exact hsteady.observeAll hlag (fun r hr => hcurrent r (List.mem_cons_of_mem _ hr))
    (hanchor ▸ hafter)

end run

/-- Five nanoseconds into tick 0 at 60 ticks a second, the end of tick 3 is a report that keeps the
phase. -/
theorem observe_keeps_phase_sixty : ∃ clock after,
    CommittedClock.new ⟨60, by decide, by decide⟩ 0 5 1 = .ok clock ∧
    clock.observe 3 50000000 = .ok after ∧ after.phaseOffsetNanos = -5 ∧
    ∀ serverNow, 50000000 ≤ serverNow →
      after.extrapolatedElapsed serverNow = clock.extrapolatedElapsed serverNow := by
  have h : CommittedClock.new ⟨60, by decide, by decide⟩ (Report.mk 0 5).tick
      (Report.mk 0 5).serverTime 1 =
      .ok ⟨⟨60, by decide, by decide⟩, 0, 5, 0, 0, 1⟩ := rfl
  have hcurrent : ∀ r ∈ Report.mk 0 5 :: ([] ++ Report.mk 3 50000000 :: []),
      Current ⟨60, by decide, by decide⟩ 0 r := by
    intro r hr
    rcases List.mem_cons.mp hr with rfl | hr
    · exact ⟨by decide +kernel, by decide +kernel, by decide +kernel, by decide +kernel⟩
    · rw [List.mem_singleton.mp hr]
      exact ⟨by decide +kernel, by decide +kernel, by decide +kernel, by decide +kernel⟩
  have hafter : List.IsChain After (Report.mk 0 5 :: ([] ++ Report.mk 3 50000000 :: [])) := by
    simp [After]
  obtain ⟨reached, after, hreached, hobserve, hkeeps⟩ :=
    observe_keeps_phase h hcurrent hafter (.inr (by decide +kernel))
  cases hreached
  have hvalue : CommittedClock.observe ⟨⟨60, by decide, by decide⟩, 0, 5, 0, 0, 1⟩ 3 50000000 =
      .ok ⟨⟨60, by decide, by decide⟩, 3, 50000000, -5, 3, 1⟩ := by
    decide +kernel
  rw [hvalue] at hobserve
  cases hobserve
  exact ⟨_, _, h, hvalue, rfl, hkeeps⟩

/-- In the last nanosecond of tick 0, which is a nanosecond longer than tick 2, the same report
drops the phase: the extrapolated time jumps by a whole tick. -/
theorem observe_changes_phase : ∃ clock after,
    CommittedClock.new ⟨60, by decide, by decide⟩ 0 16666666 1 = .ok clock ∧
    Current ⟨60, by decide, by decide⟩ 0 ⟨0, 16666666⟩ ∧
    Current ⟨60, by decide, by decide⟩ 0 ⟨3, 50000000⟩ ∧ clock.observe 3 50000000 = .ok after ∧
    clock.extrapolatedElapsed 50000000 = .ok 33333334 ∧ after.extrapolatedElapsed 50000000 =
      .ok 50000000 := by
  refine ⟨⟨⟨60, by decide, by decide⟩, 0, 16666666, 0, 0, 1⟩, ⟨⟨60, by decide, by decide⟩, 3,
    50000000, 0, 3, 1⟩, rfl, ?_, ?_, by decide +kernel, by decide +kernel, by decide +kernel⟩
  all_goals exact ⟨by decide +kernel, by decide +kernel, by decide +kernel, by decide +kernel⟩

end CommittedClock
end Net
