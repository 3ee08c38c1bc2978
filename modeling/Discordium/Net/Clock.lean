import Discordium.Lib.Machine
import Discordium.Net.Types

/-!
# Net — Clock

The fixed-tick clock of `clock.rs` and the rational tick rate of `types.rs`.  A duration is a number
of nanoseconds.  The products of a tick or a duration with a rate fit the 128-bit words the code
computes them in, so they are plain products here; what can fail is the conversion back to 64 bits,
and there the code saturates or stops the burst.

**Deadlines and counts** (`deadline_elapsedTicks_galois`).  At every rate, counting the ticks of a
duration and taking the deadline of a tick are adjoint, though one rounds down and the other up.

**Pacing** (`ticks_paced`).  Over any calls of `advance_ticked`, with times that may go back, the
ticks run once each, in order and on time, as far as the burst limit allows; what is owed is
reported, and a publication is flagged once an interval of the wall clock.
-/

namespace Net
open Lib

/-- Nanoseconds in a second. -/
def nanosPerSecond : ℕ := 1000000000

/-- The largest duration: 64 bits of seconds, and the nanoseconds of one more. -/
def durationMax : ℕ := wordMax 64 * nanosPerSecond + (nanosPerSecond - 1)

/-! ### Tick rates -/

/-- A rational fixed rate. -/
structure TickRate where
  hz : ℕ
  hz_pos : 0 < hz
  hz_le : hz ≤ nanosPerSecond
  deriving DecidableEq

namespace TickRate

def new (hz : ℕ) : Option TickRate :=
  if h : 0 < hz ∧ hz ≤ nanosPerSecond then some ⟨hz, h.1, h.2⟩ else none

/-- The deadline of the end of a tick, rounded upward to a nanosecond. -/
def deadline (rate : TickRate) (tick : ℕ) : Option ℕ :=
  let nanos := tick * nanosPerSecond ⌈/⌉ rate.hz
  if nanos / nanosPerSecond ≤ wordMax 64 then some nanos else none

def elapsedTicks (rate : TickRate) (elapsed : ℕ) : Option ℕ :=
  let ticks := elapsed * rate.hz / nanosPerSecond
  if ticks ≤ wordMax 64 then some ticks else none

/-- One elapsed instant as a tick and a phase of 65,536ths, both rounded down. -/
def elapsedTickPhase (rate : TickRate) (elapsed : ℕ) : Option (ℕ × ℕ) :=
  (checkedMul 128 elapsed rate.hz).bind fun scaled =>
    if scaled / nanosPerSecond ≤ wordMax 64 then
      some (scaled / nanosPerSecond, scaled % nanosPerSecond * 65536 / nanosPerSecond % 65536)
    else none

/-- The ticks due at an instant, as far as a 64-bit tick can say. -/
def due (rate : TickRate) (now : ℕ) : ℕ := min (now * rate.hz / nanosPerSecond) (wordMax 64)

theorem elapsedTicks_getD (rate : TickRate) (now : ℕ) :
    (rate.elapsedTicks now).getD (wordMax 64) = rate.due now := by
  unfold elapsedTicks due
  dsimp only
  split_ifs with h
  · exact (min_eq_left h).symm
  · exact (min_eq_right (not_le.mp h).le).symm

theorem due_le_wordMax (rate : TickRate) (now : ℕ) : rate.due now ≤ wordMax 64 := min_le_right _ _

variable {later tick elapsed : ℕ}

theorem due_mono (rate : TickRate) {now : ℕ} (h : now ≤ later) : rate.due now ≤ rate.due later := by
  unfold due
  gcongr

/-- Every 64-bit tick has a deadline: the rate is at least one tick a second. -/
theorem deadline_eq (rate : TickRate) (h : tick ≤ wordMax 64) :
    rate.deadline tick = some (tick * nanosPerSecond ⌈/⌉ rate.hz) := by
  have hceil : tick * nanosPerSecond ⌈/⌉ rate.hz ≤ tick * nanosPerSecond := by
    rw [ceilDiv_le_iff_le_mul rate.hz_pos]
    exact Nat.le_mul_of_pos_left _ rate.hz_pos
  have hseconds : (tick * nanosPerSecond ⌈/⌉ rate.hz) / nanosPerSecond ≤ tick :=
    Nat.div_le_of_le_mul (hceil.trans_eq (Nat.mul_comm _ _))
  unfold deadline
  exact if_pos (hseconds.trans h)

/-- **A tick is due exactly when its deadline has passed.** -/
theorem le_due_iff (rate : TickRate) {now : ℕ} (h : tick ≤ wordMax 64) :
    tick ≤ rate.due now ↔ tick * nanosPerSecond ⌈/⌉ rate.hz ≤ now := by
  rw [due, le_min_iff, Nat.le_div_iff_mul_le (by decide), ceilDiv_le_iff_le_mul rate.hz_pos,
    Nat.mul_comm now]
  exact and_iff_left h

/-- Deadlines are a nanosecond apart at least: no rate is above one tick a nanosecond. -/
theorem deadline_strictMono (rate : TickRate) :
    StrictMono fun tick => tick * nanosPerSecond ⌈/⌉ rate.hz := by
  refine strictMono_nat_of_lt_succ fun tick => ?_
  have hnext : (tick + 1) * nanosPerSecond ≤ rate.hz * ((tick + 1) * nanosPerSecond ⌈/⌉ rate.hz) :=
    (ceilDiv_le_iff_le_mul rate.hz_pos).mp le_rfl
  have hpos : 0 < (tick + 1) * nanosPerSecond ⌈/⌉ rate.hz := by
    refine Nat.pos_of_mul_pos_left (Nat.lt_of_lt_of_le ?_ hnext)
    exact Nat.mul_pos (Nat.succ_pos tick) (by decide)
  refine Nat.lt_of_le_pred hpos ?_
  rw [ceilDiv_le_iff_le_mul rate.hz_pos, Nat.pred_eq_sub_one, Nat.mul_sub, Nat.mul_one]
  refine Nat.le_sub_of_add_le (le_trans ?_ hnext)
  rw [Nat.add_mul, Nat.one_mul]
  exact Nat.add_le_add_left rate.hz_le _

theorem elapsedTicks_eq_some {rate : TickRate} {ticks : ℕ} :
    rate.elapsedTicks elapsed = some ticks ↔
      ticks = elapsed * rate.hz / nanosPerSecond ∧ ticks ≤ wordMax 64 := by
  unfold elapsedTicks
  dsimp only
  split_ifs with h
  · exact ⟨fun heq => by cases heq; exact ⟨rfl, h⟩, fun heq => by rw [heq.1]⟩
  · exact ⟨nofun, fun heq => absurd (heq.1 ▸ heq.2) h⟩

theorem deadline_eq_some {rate : TickRate} {deadline : ℕ} (h : rate.deadline tick = some deadline) :
    deadline = tick * nanosPerSecond ⌈/⌉ rate.hz := by
  unfold TickRate.deadline at h
  dsimp only at h
  split_ifs at h
  cases h
  rfl

/-- The scaled duration fits the 128-bit word it is checked in. -/
theorem elapsedTickPhase_eq {rate : TickRate} (h : elapsed ≤ durationMax) :
    rate.elapsedTickPhase elapsed = (rate.elapsedTicks elapsed).map fun ticks =>
      (ticks, elapsed * rate.hz % nanosPerSecond * 65536 / nanosPerSecond) := by
  have hword : elapsed * rate.hz ≤ wordMax 128 :=
    (Nat.mul_le_mul h rate.hz_le).trans (by decide)
  have hphase : elapsed * rate.hz % nanosPerSecond * 65536 / nanosPerSecond < 65536 := by
    rw [Nat.div_lt_iff_lt_mul (by decide), Nat.mul_comm]
    exact Nat.mul_lt_mul_of_pos_left (Nat.mod_lt _ (by decide)) (by decide)
  rw [elapsedTickPhase, checkedMul_eq_some.mpr ⟨rfl, hword⟩, Option.bind_some, elapsedTicks]
  split_ifs
  · rw [Nat.mod_eq_of_lt hphase]
    rfl
  · rfl

/-- Rounding one instant down twice keeps the order of instants. -/
theorem tickPhase_mono {scaled : ℕ} (h : scaled ≤ later) :
    toLex (scaled / nanosPerSecond, scaled % nanosPerSecond * 65536 / nanosPerSecond) ≤
      toLex (later / nanosPerSecond, later % nanosPerSecond * 65536 / nanosPerSecond) := by
  rw [Prod.Lex.toLex_le_toLex]
  rcases (Nat.div_le_div_right h : scaled / nanosPerSecond ≤ later / nanosPerSecond).lt_or_eq
    with hlt | heq
  · exact .inl hlt
  · refine .inr ⟨heq, Nat.div_le_div_right (Nat.mul_le_mul_right _ ?_)⟩
    -- in one tick, the later instant has the larger remainder
    have hscaled := Nat.div_add_mod scaled nanosPerSecond
    have hlater := Nat.div_add_mod later nanosPerSecond
    rw [heq] at hscaled
    omega

/-- **Deadlines and tick counts are adjoint**: a duration holds `tick` ticks exactly if it reaches
the deadline of `tick`.  Deadlines grow with the tick, and the tick and phase of a duration grow
with the duration. -/
theorem deadline_elapsedTicks_galois (rate : TickRate) :
    (∀ tick, tick ≤ wordMax 64 → ∃ deadline, rate.deadline tick = some deadline ∧
      ∀ elapsed ticks, rate.elapsedTicks elapsed = some ticks →
        (tick ≤ ticks ↔ deadline ≤ elapsed)) ∧
    (∀ tick later deadline next, tick < later → rate.deadline tick = some deadline →
      rate.deadline later = some next → deadline < next) ∧
    (∀ elapsed, elapsed ≤ durationMax →
      (rate.elapsedTickPhase elapsed).map Prod.fst = rate.elapsedTicks elapsed) ∧
    (∀ elapsed later phase next, elapsed ≤ later → later ≤ durationMax →
      rate.elapsedTickPhase elapsed = some phase → rate.elapsedTickPhase later = some next →
      toLex phase ≤ toLex next) := by
  refine ⟨fun tick htick => ?_, ?_, fun elapsed helapsed => ?_, ?_⟩
  · refine ⟨_, rate.deadline_eq htick, fun elapsed ticks hticks => ?_⟩
    rw [(elapsedTicks_eq_some.mp hticks).1, Nat.le_div_iff_mul_le (by decide),
      ceilDiv_le_iff_le_mul rate.hz_pos, Nat.mul_comm elapsed]
  · intro tick later deadline next hlt hdeadline hnext
    rw [deadline_eq_some hdeadline, deadline_eq_some hnext]
    exact rate.deadline_strictMono hlt
  · rw [elapsedTickPhase_eq helapsed, Option.map_map]
    exact Option.map_id'
  · intro elapsed later phase next hle hlater hphase hnext
    rw [elapsedTickPhase_eq (hle.trans hlater), Option.map_eq_some_iff] at hphase
    rw [elapsedTickPhase_eq hlater, Option.map_eq_some_iff] at hnext
    obtain ⟨ticks, hticks, rfl⟩ := hphase
    obtain ⟨nextTicks, hnextTicks, rfl⟩ := hnext
    rw [(elapsedTicks_eq_some.mp hticks).1, (elapsedTicks_eq_some.mp hnextTicks).1]
    exact tickPhase_mono (Nat.mul_le_mul_right _ hle)

end TickRate

/-! ### The clock -/

structure TickClock where
  rate : TickRate
  snapshotInterval : ℕ
  committed : ℕ
  lastObserved : ℕ
  catchupLimit : ℕ
  lastFlushWallTick : ℕ
  pendingPublication : Bool
  deriving DecidableEq

/-- What a step callback is told. -/
structure TickContext where
  tick : ℕ
  deadline : ℕ
  observedNow : ℕ

structure TickHealth where
  committed : ℕ
  debtTicks : ℕ
  overloaded : Bool

structure TickDecision where
  sendDue : Bool
  snapshotDue : Bool
  executedTicks : ℕ
  health : TickHealth

namespace TickClock

/-- `new`; nothing where the code's assertions fail. -/
def new (tickHz snapshotInterval : ℕ) : Option TickClock :=
  if snapshotInterval = 0 then none
  else (TickRate.new tickHz).map fun rate => ⟨rate, snapshotInterval, 0, 0, 4, 0, false⟩

def withCatchupLimit (clock : TickClock) (ticks : ℕ) : Option TickClock :=
  if 1 ≤ ticks ∧ ticks ≤ 1024 then some { clock with catchupLimit := ticks } else none

def health (clock : TickClock) (now : ℕ) : TickHealth :=
  let due := (clock.rate.elapsedTicks (max now clock.lastObserved)).getD (wordMax 64)
  let debtTicks := due - clock.committed
  ⟨clock.committed, debtTicks, clock.catchupLimit < debtTicks⟩

/-- One turn of the burst loop; nothing where the loop breaks. -/
def stepTick (clock : TickClock) (now : ℕ) : Option (TickClock × TickContext) :=
  (checkedNext clock.committed).bind fun tick =>
    (clock.rate.deadline tick).map fun deadline =>
      ({ clock with
          committed := tick
          pendingPublication :=
            clock.pendingPublication || decide (clock.snapshotInterval ∣ tick) },
        ⟨tick, deadline, now⟩)

/-- The burst loop of `advance_ticked`: at most `n` ticks, with the contexts its callback gets. -/
def burst (now : ℕ) : ℕ → TickClock → TickClock × List TickContext
  | 0, clock => (clock, [])
  | n + 1, clock =>
    match clock.stepTick now with
    | none => (clock, [])
    | some (clock, context) => ((burst now n clock).1, context :: (burst now n clock).2)

/-- `advance_ticked`, with the contexts of the callbacks it makes; `executed_ticks` counts those. -/
def advanceTicked (clock : TickClock) (now : ℕ) : TickClock × TickDecision × List TickContext :=
  let now := max now clock.lastObserved
  let clock := { clock with lastObserved := now }
  let before := clock.health now
  let (clock, contexts) := burst now (min before.debtTicks clock.catchupLimit) clock
  let wallTick := (clock.rate.elapsedTicks now).getD (wordMax 64)
  if clock.lastFlushWallTick < wallTick then
    let sent := { clock with lastFlushWallTick := wallTick, pendingPublication := false }
    (sent, ⟨true, clock.pendingPublication, contexts.length, sent.health now⟩, contexts)
  else (clock, ⟨false, false, contexts.length, clock.health now⟩, contexts)

/-! ### What one call does -/

theorem stepTick_of_due {clock : TickClock} {now : ℕ}
    (hdue : clock.committed + 1 ≤ clock.rate.due now) :
    clock.stepTick now = some
      ({ clock with
          committed := clock.committed + 1
          pendingPublication := clock.pendingPublication ||
            decide (clock.snapshotInterval ∣ clock.committed + 1) },
        ⟨clock.committed + 1, (clock.committed + 1) * nanosPerSecond ⌈/⌉ clock.rate.hz, now⟩) := by
  have hword : clock.committed + 1 ≤ wordMax 64 := hdue.trans (clock.rate.due_le_wordMax now)
  rw [stepTick, checkedNext_eq_some.mpr ⟨rfl, hword⟩, Option.bind_some,
    clock.rate.deadline_eq hword]
  rfl

/-- **Spec of the burst**: while ticks are due, `n` of them run, one after another. -/
theorem burst_spec (now n : ℕ) (clock : TickClock)
    (hdue : clock.committed + n ≤ clock.rate.due now) :
    burst now n clock =
      ({ clock with
          committed := clock.committed + n
          pendingPublication := clock.pendingPublication ||
            (List.range' (clock.committed + 1) n).any (clock.snapshotInterval ∣ ·) },
        (List.range' (clock.committed + 1) n).map fun tick =>
          ⟨tick, tick * nanosPerSecond ⌈/⌉ clock.rate.hz, now⟩) := by
  induction n generalizing clock with
  | zero => simp [burst]
  | succ n ih =>
    simp only [burst, stepTick_of_due (by omega : clock.committed + 1 ≤ clock.rate.due now)]
    rw [ih _ (by dsimp only; omega)]
    simp only [List.range'_succ, List.map_cons, List.any_cons, Bool.or_assoc, Prod.mk.injEq,
      TickClock.mk.injEq, and_true, true_and]
    omega

/-- The clock after the burst of a call, before anything is sent. -/
def caughtUp (clock : TickClock) (now : ℕ) : TickClock :=
  let seen := max now clock.lastObserved
  let n := min (clock.rate.due seen - clock.committed) clock.catchupLimit
  { clock with
    lastObserved := seen
    committed := clock.committed + n
    pendingPublication := clock.pendingPublication ||
      (List.range' (clock.committed + 1) n).any (clock.snapshotInterval ∣ ·) }

/-- The contexts of the callbacks of a call. -/
def callbacks (clock : TickClock) (now : ℕ) : List TickContext :=
  let seen := max now clock.lastObserved
  (List.range' (clock.committed + 1) (min (clock.rate.due seen - clock.committed)
    clock.catchupLimit)).map
    fun tick => ⟨tick, tick * nanosPerSecond ⌈/⌉ clock.rate.hz, seen⟩

theorem health_eq (clock : TickClock) (now : ℕ) :
    clock.health now =
      ⟨clock.committed, clock.rate.due (max now clock.lastObserved) - clock.committed,
        clock.catchupLimit < clock.rate.due (max now clock.lastObserved) - clock.committed⟩ := by
  rw [health, TickRate.elapsedTicks_getD]

/-- **Spec of a call** on a clock that has not run ahead of its time. -/
theorem advanceTicked_eq {clock : TickClock} (now : ℕ)
    (hdue : clock.committed ≤ clock.rate.due clock.lastObserved) :
    clock.advanceTicked now =
      if clock.lastFlushWallTick < clock.rate.due (max now clock.lastObserved) then
        let sent := { clock.caughtUp now with
          lastFlushWallTick :=
            clock.rate.due (max now clock.lastObserved), pendingPublication := false }
        (sent, ⟨true, (clock.caughtUp now).pendingPublication, (clock.callbacks now).length,
          (clock.caughtUp now).health now⟩, clock.callbacks now)
      else (clock.caughtUp now, ⟨false, false, (clock.callbacks now).length,
        (clock.caughtUp now).health now⟩, clock.callbacks now) := by
  have hlater : clock.rate.due clock.lastObserved ≤ clock.rate.due (max now clock.lastObserved) :=
    clock.rate.due_mono (le_max_right _ _)
  have hburst := burst_spec (max now clock.lastObserved)
    (min (clock.rate.due (max now clock.lastObserved) - clock.committed) clock.catchupLimit)
    { clock with lastObserved := max now clock.lastObserved } (by dsimp only; omega)
  unfold advanceTicked
  simp only [health_eq, max_self, hburst, TickRate.elapsedTicks_getD, caughtUp, callbacks,
    le_max_left, max_eq_right]

/-! ### Histories -/

/-- A call of the clock and what it did. -/
structure Advance where
  now : ℕ
  decision : TickDecision
  contexts : List TickContext

def advance (clock : TickClock) (now : ℕ) : Advance :=
  ⟨now, (clock.advanceTicked now).2.1, (clock.advanceTicked now).2.2⟩

/-- A call of `advance_ticked` on a clock with its history, newest call first. -/
def record (s : TickClock × List Advance) (now : ℕ) : TickClock × List Advance :=
  ((s.1.advanceTicked now).1, s.1.advance now :: s.2)

/-- The latest time a history has seen. -/
def observed : List Advance → ℕ
  | [] => 0
  | call :: older => max call.now (observed older)

/-- The number of callbacks of a history. -/
def steps : List Advance → ℕ
  | [] => 0
  | call :: older => steps older + call.contexts.length

/-- The callbacks made since the last call that was due to send. -/
def sinceSend : List Advance → List TickContext
  | [] => []
  | call :: older => if call.decision.sendDue then [] else sinceSend older ++ call.contexts

/-- The wall ticks at which a history was due to send. -/
def sendTicks (rate : TickRate) : List Advance → List ℕ
  | [] => []
  | call :: older =>
    if call.decision.sendDue then rate.due (observed (call :: older)) :: sendTicks rate older
    else sendTicks rate older

/-- What a call does after the calls of a history. -/
structure Timely (rate : TickRate) (interval limit : ℕ) (older : List Advance) (call : Advance) :
    Prop where
  /-- It runs the next ticks: those that are owed, as far as the burst limit allows. -/
  ticks : call.contexts.map (·.tick) =
    List.range' (steps older + 1) (min (rate.due (observed (call :: older)) - steps older) limit)
  executed : call.decision.executedTicks = call.contexts.length
  punctual : ∀ context ∈ call.contexts, rate.deadline context.tick = some context.deadline ∧
    context.deadline ≤ context.observedNow ∧ context.observedNow = observed (call :: older)
  health : call.decision.health.committed = steps (call :: older) ∧
    call.decision.health.debtTicks =
      rate.due (observed (call :: older)) - steps (call :: older) ∧
    (call.decision.health.overloaded = true ↔ limit < call.decision.health.debtTicks)
  /-- It is due to send on the first call of a wall tick. -/
  send : call.decision.sendDue = true ↔
    ∀ tick ∈ 0 :: sendTicks rate older, tick < rate.due (observed (call :: older))
  snapshot : call.decision.snapshotDue = true ↔ call.decision.sendDue = true ∧
    ∃ context ∈ sinceSend older ++ call.contexts, interval ∣ context.tick

/-- What a clock knows of its history. -/
structure Kept (rate : TickRate) (interval limit : ℕ) (s : TickClock × List Advance) : Prop where
  rate_eq : s.1.rate = rate
  interval_eq : s.1.snapshotInterval = interval
  limit_eq : s.1.catchupLimit = limit
  committed_eq : s.1.committed = steps s.2
  lastObserved_eq : s.1.lastObserved = observed s.2
  due : steps s.2 ≤ rate.due (observed s.2)
  flushed : ∀ wallTick, s.1.lastFlushWallTick < wallTick ↔
    ∀ tick ∈ 0 :: sendTicks rate s.2, tick < wallTick
  pending : s.1.pendingPublication = true ↔ ∃ context ∈ sinceSend s.2, interval ∣ context.tick

section call
variable {clock : TickClock} {now : ℕ}

section
variable (hdue : clock.committed ≤ clock.rate.due clock.lastObserved)
include hdue

theorem advance_contexts : (clock.advance now).contexts = clock.callbacks now := by
  rw [advance, advanceTicked_eq now hdue]
  split_ifs <;> rfl

theorem advance_health : (clock.advance now).decision.health = (clock.caughtUp now).health now := by
  rw [advance, advanceTicked_eq now hdue]
  split_ifs <;> rfl

theorem advance_executed :
    (clock.advance now).decision.executedTicks = (clock.callbacks now).length := by
  rw [advance, advanceTicked_eq now hdue]
  split_ifs <;> rfl

theorem advance_sendDue :
    (clock.advance now).decision.sendDue =
      decide (clock.lastFlushWallTick < clock.rate.due (max now clock.lastObserved)) := by
  rw [advance, advanceTicked_eq now hdue]
  split_ifs with h <;> simp [h]

theorem advance_snapshotDue :
    (clock.advance now).decision.snapshotDue =
      ((clock.advance now).decision.sendDue && (clock.caughtUp now).pendingPublication) := by
  rw [advance, advanceTicked_eq now hdue]
  split_ifs <;> rfl

/-- The clock a call leaves. -/
theorem advanceTicked_fst :
    (clock.advanceTicked now).1 = { clock.caughtUp now with
      lastFlushWallTick := max clock.lastFlushWallTick (clock.rate.due (max now clock.lastObserved))
      pendingPublication :=
        !(clock.advance now).decision.sendDue && (clock.caughtUp now).pendingPublication } := by
  rw [advance_sendDue hdue, advanceTicked_eq now hdue]
  split_ifs with h
  · simp [h, max_eq_right h.le]
  · simp only [h, max_eq_left (not_lt.mp h)]
    rfl

end

theorem callbacks_length :
    (clock.callbacks now).length =
      min (clock.rate.due (max now clock.lastObserved) - clock.committed) clock.catchupLimit := by
  rw [callbacks, List.length_map, List.length_range']

theorem caughtUp_pending :
    (clock.caughtUp now).pendingPublication = true ↔ clock.pendingPublication = true ∨
      ∃ context ∈ clock.callbacks now, clock.snapshotInterval ∣ context.tick := by
  simp [caughtUp, callbacks]

end call

variable {rate : TickRate} {interval limit : ℕ} {s : TickClock × List Advance} {now : ℕ}

section
variable (h : Kept rate interval limit s)
include h

theorem Kept.on_time : s.1.committed ≤ s.1.rate.due s.1.lastObserved := by
  rw [h.rate_eq, h.committed_eq, h.lastObserved_eq]
  exact h.due

theorem Kept.pending_iff :
    (s.1.caughtUp now).pendingPublication = true ↔
      ∃ context ∈ sinceSend s.2 ++ (s.1.advance now).contexts, interval ∣ context.tick := by
  rw [caughtUp_pending, h.pending, h.interval_eq, advance_contexts h.on_time]
  simp only [List.mem_append, or_and_right, exists_or]

/-- **A call on a clock that knows its history is timely.** -/
theorem Kept.timely (now : ℕ) : Timely rate interval limit s.2 (s.1.advance now) := by
  have hseen : max now s.1.lastObserved = observed (s.1.advance now :: s.2) := by
    rw [observed, h.lastObserved_eq, advance]
  have hsteps : steps (s.1.advance now :: s.2) = (s.1.caughtUp now).committed := by
    rw [steps, advance_contexts h.on_time, callbacks_length, ← h.committed_eq, caughtUp]
  refine ⟨?_, ?_, ?_, ?_, ?_, ?_⟩
  · rw [advance_contexts h.on_time, ← hseen, ← h.committed_eq, ← h.rate_eq, ← h.limit_eq, callbacks,
      List.map_map]
    exact List.map_id _
  · rw [advance_executed h.on_time, advance_contexts h.on_time]
  · intro context hcontext
    rw [advance_contexts h.on_time, callbacks, List.mem_map] at hcontext
    obtain ⟨tick, htick, rfl⟩ := hcontext
    have hle : tick ≤ s.1.rate.due (max now s.1.lastObserved) := by
      obtain ⟨hlow, hhigh⟩ := List.mem_range'_1.mp htick
      omega
    have hword := hle.trans (s.1.rate.due_le_wordMax _)
    rw [← h.rate_eq]
    exact ⟨s.1.rate.deadline_eq hword, (s.1.rate.le_due_iff hword).mp hle, hseen⟩
  · rw [advance_health h.on_time, health_eq, ← hseen, hsteps, ← h.rate_eq, ← h.limit_eq]
    simp [caughtUp]
  · rw [advance_sendDue h.on_time, decide_eq_true_eq, hseen, h.flushed, h.rate_eq]
  · rw [advance_snapshotDue h.on_time, Bool.and_eq_true, h.pending_iff]

theorem Kept.record (now : ℕ) : Kept rate interval limit (record s now) := by
  have hsteps : s.1.committed + (s.1.advance now).contexts.length =
      (s.1.caughtUp now).committed := by
    rw [advance_contexts h.on_time, callbacks_length, caughtUp]
  have hseen : max now s.1.lastObserved = observed (s.1.advance now :: s.2) := by
    rw [observed, h.lastObserved_eq, advance]
  have hsend := @advance_sendDue s.1 now h.on_time
  have hfst := @advanceTicked_fst s.1 now h.on_time
  refine ⟨?_, ?_, ?_, ?_, ?_, ?_, ?_, ?_⟩
  · rw [TickClock.record, hfst]
    exact h.rate_eq
  · rw [TickClock.record, hfst]
    exact h.interval_eq
  · rw [TickClock.record, hfst]
    exact h.limit_eq
  · rw [TickClock.record, hfst, steps, ← h.committed_eq, hsteps]
  · rw [TickClock.record, hfst, ← hseen]
    rfl
  · have hlater := s.1.rate.due_mono (le_max_right now s.1.lastObserved)
    have hdue := h.on_time
    rw [TickClock.record, steps, ← h.committed_eq, hsteps, ← hseen, ← h.rate_eq, caughtUp]
    dsimp only
    omega
  · intro wallTick
    rw [TickClock.record, hfst, sendTicks, hsend, max_lt_iff, h.flushed, ← hseen, ← h.rate_eq]
    by_cases hlt : s.1.lastFlushWallTick < s.1.rate.due (max now s.1.lastObserved)
    · simp only [hlt, decide_true, if_true, List.forall_mem_cons]
      tauto
    · -- nothing is sent: the wall tick is not past the last one that was
      simp only [hlt, decide_false, Bool.false_eq_true, if_false]
      refine and_iff_left_of_imp fun hall => (not_lt.mp hlt).trans_lt ((h.flushed wallTick).mpr ?_)
      rw [← h.rate_eq]
      exact hall
  · rw [TickClock.record, hfst, Bool.and_eq_true, h.pending_iff, sinceSend]
    cases (s.1.advance now).decision.sendDue <;> simp

end

/-- The ticks of the callbacks of a history, oldest first. -/
def ticks (history : List Advance) : List ℕ :=
  history.reverse.flatMap fun call => call.contexts.map (·.tick)

/-- A clock as it is set up: a tick rate, a snapshot interval and a burst limit. -/
def setUp (tickHz interval limit : ℕ) : Option TickClock :=
  (new tickHz interval).bind fun clock => clock.withCatchupLimit limit

theorem setUp_eq_some {tickHz : ℕ} {clock : TickClock}
    (h : setUp tickHz interval limit = some clock) :
    clock = ⟨clock.rate, interval, 0, 0, limit, 0, false⟩ ∧ clock.rate.hz = tickHz := by
  obtain ⟨fresh, hnew, hlimit⟩ := Option.bind_eq_some_iff.mp h
  unfold new at hnew
  unfold withCatchupLimit at hlimit
  split_ifs at hnew hlimit
  obtain ⟨rate, hrate, rfl⟩ := Option.map_eq_some_iff.mp hnew
  unfold TickRate.new at hrate
  split_ifs at hrate
  cases hrate
  cases hlimit
  exact ⟨rfl, rfl⟩

theorem Kept.setUp {tickHz : ℕ} {clock : TickClock} (h : setUp tickHz interval limit = some clock) :
    Kept clock.rate interval limit (clock, []) := by
  obtain ⟨hclock, -⟩ := setUp_eq_some h
  rw [hclock]
  exact ⟨rfl, rfl, rfl, rfl, rfl, Nat.zero_le _, fun _ => by simp [sendTicks], by simp [sinceSend]⟩

/-- What holds of a history all of whose calls are timely. -/
theorem ticks_of_timely {history : List Advance}
    (h : ∀ call older, (call :: older) <:+ history → Timely rate interval limit older call) :
    ticks history = List.range' 1 (steps history) := by
  induction history with
  | nil => rfl
  | cons call older ih =>
    have htimely := h call older List.suffix_rfl
    have hlength : min (rate.due (observed (call :: older)) - steps older) limit =
        call.contexts.length := by
      rw [← List.length_map (f := (·.tick)), htimely.ticks, List.length_range']
    have hold : ticks older = List.range' 1 (steps older) :=
      ih fun call' older' hsuffix => h call' older' (hsuffix.trans (List.suffix_cons call older))
    rw [steps, ticks, List.reverse_cons, List.flatMap_append, List.flatMap_singleton, htimely.ticks,
      hlength, ← List.range'_append_1, Nat.add_comm 1, ← hold, ticks]

/-- **Every call of every run is timely**, and the callbacks of the run are for ticks 1, 2, 3, …. -/
theorem ticks_paced {tickHz : ℕ} {clock : TickClock} (h : setUp tickHz interval limit = some clock)
    (nows : List ℕ) :
    clock.rate.hz = tickHz ∧
      ticks (run TickClock.record (clock, []) nows).2 =
        List.range' 1 (steps (run TickClock.record (clock, []) nows).2) ∧
      ∀ call older, (call :: older) <:+ (run TickClock.record (clock, []) nows).2 →
        Timely clock.rate interval limit older call := by
  have hkept : Kept clock.rate interval limit (run TickClock.record (clock, []) nows) ∧
      ∀ call older, (call :: older) <:+ (run TickClock.record (clock, []) nows).2 →
        Timely clock.rate interval limit older call := by
    refine run_invariant (I := fun s => Kept clock.rate interval limit s ∧
      ∀ call older, (call :: older) <:+ s.2 → Timely clock.rate interval limit older call)
      (fun s now hs => ⟨hs.1.record now, fun call older hsuffix => ?_⟩) ⟨Kept.setUp h, by simp⟩ nows
    rcases List.suffix_cons_iff.mp hsuffix with heq | hsuffix
    · obtain ⟨rfl, rfl⟩ := List.cons.inj heq
      exact hs.1.timely now
    · exact hs.2 call older hsuffix
  exact ⟨(setUp_eq_some h).2, ticks_of_timely hkept.2, hkept.2⟩

/-- Ten minutes late, then a time that goes back: two bursts of the ticks owed. -/
theorem ticks_paced_suspended : ∃ clock, setUp 60 3 4 = some clock ∧
    ticks (run TickClock.record (clock, []) [600 * nanosPerSecond, 0]).2 =
      [1, 2, 3, 4, 5, 6, 7, 8] := by
  have h : setUp 60 3 4 = some ⟨⟨60, by decide, by decide⟩, 3, 0, 0, 4, 0, false⟩ := by
    decide +kernel
  refine ⟨_, h, (ticks_paced h _).2.1.trans ?_⟩
  decide +kernel

end TickClock
end Net
