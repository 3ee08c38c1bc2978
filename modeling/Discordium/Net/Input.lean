import Discordium.Lib.Machine
import Discordium.Net.Types

/-!
# Net — Input

The journal of timestamped hardware samples of `input.rs`.  A sample is captured once, at a time no
earlier than the last one and after everything already drained; a drain takes all samples up to its
deadline into one frame, and commits that only if the frame's edges fit and its mouse motion stays
finite.  Times are numbers of nanoseconds; floating point is what `Motion` says of it, so no result
depends on rounding.

**Conservation** (`drains_conserve`).  In every run without a reset, the samples captured so far are
those the successful drains took, in order, and then those still pending; a drain takes exactly what
is newly due, and one that fails leaves the journal as it was.
-/

namespace Net
open Lib

/-- The arithmetic of mouse motion. -/
class Motion (F : Type) extends Zero F, Add F where
  isFinite : F → Bool

structure HardwareSample (H E F : Type) where
  sampledAt : ℕ
  held : Option H
  edges : BoundedVec E 8
  mouseDelta : F × F

structure JournalFrame (H E F : Type) where
  deadline : ℕ
  held : H
  edges : BoundedVec E 8
  mouseDelta : F × F

inductive JournalError where
  | invalidCapacity
  | full
  | nonMonotonicSample
  | closedSampleTime
  | nonMonotonicDeadline
  | nonFiniteMouseDelta
  | tooManyEdges

structure InputJournal (H E F : Type) where
  held : H
  samples : List (HardwareSample H E F)
  capacity : ℕ
  lastSample : Option ℕ
  closedThrough : Option ℕ

/-- What a drain has staged: the frame's contents and the number of samples that went into them. -/
structure Staged (H E F : Type) where
  held : H
  edges : BoundedVec E 8
  mouseDelta : F × F
  consumed : ℕ

namespace InputJournal

variable {H E F : Type}

/-- The last value held by some samples, or the one held before. -/
def lastHeld (held : H) (samples : List (HardwareSample H E F)) : H :=
  (samples.filterMap (·.held)).getLast?.getD held

/-- The edges of some samples, in order. -/
def edgesOf (samples : List (HardwareSample H E F)) : List E :=
  samples.flatMap (·.edges.1)

theorem lastHeld_cons (held : H) (sample : HardwareSample H E F)
    (samples : List (HardwareSample H E F)) :
    lastHeld held (sample :: samples) = lastHeld (sample.held.getD held) samples := by
  cases hheld : sample.held with
  | none => rw [lastHeld, List.filterMap_cons_none hheld, lastHeld, Option.getD_none]
  | some value =>
    rw [lastHeld, List.filterMap_cons_some hheld, List.getLast?_cons, lastHeld, Option.getD_some,
      Option.getD_some]

theorem lastHeld_append (held : H) (samples more : List (HardwareSample H E F)) :
    lastHeld held (samples ++ more) = lastHeld (lastHeld held samples) more := by
  induction samples generalizing held with
  | nil => rfl
  | cons sample samples ih => rw [List.cons_append, lastHeld_cons, ih, ← lastHeld_cons]

/-! ### The calls -/

variable [Motion F]

def new (neutral : H) (capacity : ℕ) : Except JournalError (InputJournal H E F) :=
  if capacity = 0 then .error .invalidCapacity
  else .ok ⟨neutral, [], capacity, none, none⟩

def capture (journal : InputJournal H E F) (sample : HardwareSample H E F) :
    InputJournal H E F × Except JournalError Unit :=
  if !Motion.isFinite sample.mouseDelta.1 || !Motion.isFinite sample.mouseDelta.2 then
    (journal, .error .nonFiniteMouseDelta)
  else if journal.lastSample.any (sample.sampledAt < ·) then (journal, .error .nonMonotonicSample)
  else if journal.closedThrough.any (sample.sampledAt ≤ ·) then (journal, .error .closedSampleTime)
  else if journal.samples.length = journal.capacity then (journal, .error .full)
  else
    ({ journal with lastSample := some sample.sampledAt, samples := journal.samples ++ [sample] },
      .ok ())

/-- The sum of two motions, one axis after the other; nothing when a component is not finite. -/
def addMotion (total delta : F × F) : Option (F × F) :=
  if !Motion.isFinite (total.1 + delta.1) then none
  else if !Motion.isFinite (total.2 + delta.2) then none
  else some (total.1 + delta.1, total.2 + delta.2)

/-- One round of the loop of `drain_until`. -/
def stage (staged : Staged H E F) (sample : HardwareSample H E F) :
    Answer JournalError (Staged H E F) :=
  if staged.edges.1.length + sample.edges.1.length > 8 then .err .tooManyEdges
  else
    expecting (sample.edges.1.foldlM BoundedVec.push staged.edges) fun edges =>
      match addMotion staged.mouseDelta sample.mouseDelta with
      | none => .err .nonFiniteMouseDelta
      | some mouseDelta => .ok ⟨sample.held.getD staged.held, edges, mouseDelta,
          staged.consumed + 1⟩

def stageAll : Staged H E F → List (HardwareSample H E F) → Answer JournalError (Staged H E F)
  | staged, [] => .ok staged
  | staged, sample :: samples =>
    match stage staged sample with
    | .ok staged => stageAll staged samples
    | .err error => .err error
    | .panic => .panic

def drainUntil (journal : InputJournal H E F) (deadline : ℕ) :
    InputJournal H E F × Answer JournalError (JournalFrame H E F) :=
  if journal.closedThrough.any (deadline < ·) then (journal, .err .nonMonotonicDeadline)
  else
    match stageAll ⟨journal.held, .empty, (0, 0), 0⟩ (journal.samples.takeWhile
      (·.sampledAt ≤ deadline)) with
    | .err error => (journal, .err error)
    | .panic => (journal, .panic)
    | .ok staged =>
      ({ journal with
          samples := journal.samples.drop staged.consumed
          held := staged.held
          closedThrough := some deadline },
        .ok ⟨deadline, staged.held, staged.edges, staged.mouseDelta⟩)

/-! ### What a drain does -/

theorem foldlM_push {items : BoundedVec E 8} {values : List E}
    (h : items.1.length + values.length ≤ 8) :
    ∃ items', values.foldlM BoundedVec.push items = some items' ∧ items'.1 = items.1 ++ values := by
  induction values generalizing items with
  | nil => exact ⟨items, rfl, (List.append_nil _).symm⟩
  | cons value values ih =>
    rw [List.length_cons] at h
    obtain ⟨items₁, hpush, hitems₁⟩ :=
      BoundedVec.push_of_lt value (show items.1.length < 8 by omega)
    obtain ⟨items₂, hpushes, hitems₂⟩ := @ih items₁ (by
      rw [hitems₁, List.length_append, List.length_singleton]
      omega)
    exact ⟨items₂, by rw [List.foldlM_cons, hpush]; exact hpushes, by simp [hitems₂, hitems₁]⟩

/-- **A round of a drain** never panics; one that succeeds adds the sample's edges and its held
value. -/
theorem stage_cases (staged : Staged H E F) (sample : HardwareSample H E F) :
    (∃ error, stage staged sample = .err error) ∨
      ∃ next, stage staged sample = .ok next ∧ next.held = sample.held.getD staged.held ∧
        next.edges.1 = staged.edges.1 ++ sample.edges.1 ∧ next.consumed = staged.consumed + 1 := by
  unfold stage
  split
  case isTrue => exact .inl ⟨_, rfl⟩
  case isFalse hfits =>
    obtain ⟨edges, hpush, hedges⟩ := foldlM_push (not_lt.mp hfits)
    rw [hpush, expecting_some]
    split
    · exact .inl ⟨_, rfl⟩
    · exact .inr ⟨_, rfl, rfl, hedges, rfl⟩

theorem stageAll_cases (staged : Staged H E F) (samples : List (HardwareSample H E F)) :
    (∃ error, stageAll staged samples = .err error) ∨
      ∃ final, stageAll staged samples = .ok final ∧ final.held = lastHeld staged.held samples ∧
        final.edges.1 = staged.edges.1 ++ edgesOf samples ∧ final.consumed = staged.consumed +
          samples.length := by
  induction samples generalizing staged with
  | nil => exact .inr ⟨staged, rfl, rfl, (List.append_nil _).symm, rfl⟩
  | cons sample samples ih =>
    rw [stageAll]
    rcases stage_cases staged sample with ⟨error, hstage⟩ | ⟨next, hstage, hheld, hedges, hconsumed⟩
    · exact .inl ⟨error, by rw [hstage]⟩
    · rw [hstage]
      refine (ih next).imp_right ?_
      rintro ⟨final, hfinal, hheld', hedges', hconsumed'⟩
      refine ⟨final, hfinal, ?_, ?_, ?_⟩
      · rw [hheld', hheld, lastHeld_cons]
      · rw [hedges', hedges, List.append_assoc, edgesOf, edgesOf, List.flatMap_cons]
      · rw [hconsumed', hconsumed, List.length_cons]
        omega

section
variable (journal : InputJournal H E F) (deadline : ℕ)

/-- The samples due at a deadline, at the front of the journal. -/
def due : List (HardwareSample H E F) :=
  journal.samples.takeWhile (·.sampledAt ≤ deadline)

/-- The samples behind them. -/
def later : List (HardwareSample H E F) :=
  journal.samples.dropWhile (·.sampledAt ≤ deadline)

omit [Motion F] in
theorem due_append_later : journal.due deadline ++ journal.later deadline = journal.samples :=
  List.takeWhile_append_dropWhile

omit [Motion F] in
/-- What a drain takes off the journal. -/
theorem take_due :
    journal.samples.take (journal.samples.length - (journal.later deadline).length) =
      journal.due deadline := by
  have hsamples := journal.due_append_later deadline
  have hlength : journal.samples.length - (journal.later deadline).length =
      (journal.due deadline).length := by
    rw [← hsamples, List.length_append]
    omega
  rw [hlength]
  nth_rewrite 1 [← hsamples]
  exact List.take_left

/-- **A drain** fails and leaves the journal as it was, or takes every sample due. -/
theorem drainUntil_cases :
    (∃ error, journal.drainUntil deadline = (journal, .err error)) ∨
      ∃ frame, (∀ closed ∈ journal.closedThrough, closed ≤ deadline) ∧
        frame.deadline = deadline ∧ frame.held = lastHeld journal.held (journal.due deadline) ∧
        frame.edges.1 = edgesOf (journal.due deadline) ∧
        journal.drainUntil deadline = ({ journal with
          samples := journal.later deadline
          held := lastHeld journal.held (journal.due deadline)
          closedThrough := some deadline }, .ok frame) := by
  unfold drainUntil
  split
  case isTrue => exact .inl ⟨_, rfl⟩
  case isFalse hclosed =>
    rcases stageAll_cases ⟨journal.held, .empty, (0, 0), 0⟩ (journal.due deadline) with
      ⟨error, hstage⟩ | ⟨final, hstage, hheld, hedges, hconsumed⟩
    · exact .inl ⟨error, by rw [← due, hstage]⟩
    · have hdrop : journal.samples.drop final.consumed = journal.later deadline := by
        rw [hconsumed, ← journal.due_append_later deadline, Nat.zero_add]
        exact List.drop_left
      refine .inr ⟨⟨deadline, final.held, final.edges, final.mouseDelta⟩, ?_, rfl, hheld,
        hedges, ?_⟩
      · intro closed hmem
        rw [Option.mem_def] at hmem
        simpa [hmem] using hclosed
      · rw [← due, hstage]
        simp only [hdrop, hheld]

end

/-- **A capture** fails and leaves the journal as it was, or appends a sample that is neither before
the last one nor in a time already drained. -/
theorem capture_cases (journal : InputJournal H E F) (sample : HardwareSample H E F) :
    (∃ error, journal.capture sample = (journal, .error error)) ∨
      (∀ last ∈ journal.lastSample, last ≤ sample.sampledAt) ∧
      (∀ closed ∈ journal.closedThrough, closed < sample.sampledAt) ∧
      journal.capture sample = ({ journal with
        lastSample := some sample.sampledAt
        samples := journal.samples ++ [sample] }, .ok ()) := by
  unfold capture
  split
  case isTrue => exact .inl ⟨_, rfl⟩
  split
  case isTrue => exact .inl ⟨_, rfl⟩
  case isFalse hlast =>
    split
    case isTrue => exact .inl ⟨_, rfl⟩
    case isFalse hclosed =>
      split
      case isTrue => exact .inl ⟨_, rfl⟩
      refine .inr ⟨fun last hmem => ?_, fun closed hmem => ?_, rfl⟩
      · rw [Option.mem_def] at hmem
        simpa [hmem] using hlast
      · rw [Option.mem_def] at hmem
        simpa [hmem] using hclosed

/-! ### Runs -/

/-- A successful drain, with the samples it took off the journal. -/
structure Drain (H E F : Type) where
  frame : JournalFrame H E F
  consumed : List (HardwareSample H E F)

/-- A journal, the samples it has accepted and the drains that have succeeded. -/
structure Ledger (H E F : Type) where
  journal : InputJournal H E F
  accepted : List (HardwareSample H E F)
  drains : List (Drain H E F)

inductive Call (H E F : Type) where
  | capture (sample : HardwareSample H E F)
  | drainUntil (deadline : ℕ)

namespace Ledger

/-- The samples the drains took, in the order they took them. -/
def consumed (drains : List (Drain H E F)) : List (HardwareSample H E F) :=
  drains.flatMap (·.consumed)

def step (ledger : Ledger H E F) : Call H E F → Ledger H E F
  | .capture sample =>
    match ledger.journal.capture sample with
    | (journal, .ok _) =>
        { ledger with journal := journal, accepted := ledger.accepted ++ [sample] }
    | (journal, .error _) => { ledger with journal := journal }
  | .drainUntil deadline =>
    match ledger.journal.drainUntil deadline with
    | (journal, .ok frame) =>
      { ledger with
        journal := journal
        drains := ledger.drains ++
          [⟨frame, ledger.journal.samples.take (ledger.journal.samples.length -
            journal.samples.length)⟩] }
    | (journal, _) => { ledger with journal := journal }

/-- What a drain after the drains `before` took and framed. -/
structure Framed (neutral : H) (before : List (Drain H E F)) (drain : Drain H E F) : Prop where
  due : ∀ sample ∈ drain.consumed, sample.sampledAt ≤ drain.frame.deadline
  first : ∀ sample ∈ drain.consumed, ∀ earlier ∈ before, earlier.frame.deadline < sample.sampledAt
  edges : drain.frame.edges.1 = edgesOf drain.consumed
  held : drain.frame.held = lastHeld neutral (consumed (before ++ [drain]))

/-- Accepted samples are those drained and those pending; the pending ones stand in order of time,
after everything drained. -/
structure Conserved (neutral : H) (ledger : Ledger H E F) : Prop where
  accepted : ledger.accepted = consumed ledger.drains ++ ledger.journal.samples
  framed : ∀ before drain, (before ++ [drain]).IsPrefix ledger.drains → Framed neutral before drain
  held : ledger.journal.held = lastHeld neutral (consumed ledger.drains)
  closed : ∀ drain ∈ ledger.drains, ∃ closed ∈ ledger.journal.closedThrough,
    drain.frame.deadline ≤ closed
  pending : ∀ sample ∈ ledger.journal.samples, ∀ closed ∈ ledger.journal.closedThrough,
    closed < sample.sampledAt
  last : ∀ sample ∈ ledger.journal.samples, ∃ last ∈ ledger.journal.lastSample,
    sample.sampledAt ≤ last
  sorted : ledger.journal.samples.Pairwise (·.sampledAt ≤ ·.sampledAt)

section runs
variable {neutral : H} {ledger : Ledger H E F}

omit [Motion F] in
/-- In order of time, the samples behind those due at a deadline are after it. -/
theorem lt_of_mem_later {samples : List (HardwareSample H E F)} {deadline : ℕ}
    (hsorted : samples.Pairwise (·.sampledAt ≤ ·.sampledAt)) :
    ∀ sample ∈ samples.dropWhile (·.sampledAt ≤ deadline), deadline < sample.sampledAt := by
  induction samples with
  | nil => exact nofun
  | cons head samples ih =>
    obtain ⟨hhead, hrest⟩ := List.pairwise_cons.mp hsorted
    rw [List.dropWhile_cons]
    split
    case isTrue => exact ih hrest
    case isFalse hlate =>
      have hlt : deadline < head.sampledAt := by simpa using hlate
      intro sample hsample
      rcases List.mem_cons.mp hsample with rfl | hmem
      · exact hlt
      · exact hlt.trans_le (hhead sample hmem)

omit [Motion F] in
@[simp] theorem consumed_snoc (drains : List (Drain H E F)) (drain : Drain H E F) :
    consumed (drains ++ [drain]) = consumed drains ++ drain.consumed := by
  simp [consumed]

theorem Conserved.capture (h : Conserved neutral ledger) (sample : HardwareSample H E F) :
    Conserved neutral (ledger.step (.capture sample)) := by
  rcases ledger.journal.capture_cases sample with ⟨error, hcall⟩ | ⟨hlast, hclosed, hcall⟩
  · simpa only [step, hcall] using h
  · simp only [step, hcall]
    have hbefore : ∀ earlier ∈ ledger.journal.samples, earlier.sampledAt ≤ sample.sampledAt := by
      intro earlier hearlier
      obtain ⟨last, hmem, hle⟩ := h.last earlier hearlier
      exact hle.trans (hlast last hmem)
    refine ⟨?_, h.framed, h.held, h.closed, ?_, ?_, ?_⟩
    · rw [h.accepted, List.append_assoc]
    · intro other hother closed hmem
      rcases List.mem_append.mp hother with hother | hother
      · exact h.pending other hother closed hmem
      · rw [List.mem_singleton.mp hother]
        exact hclosed closed hmem
    · intro other hother
      refine ⟨sample.sampledAt, rfl, ?_⟩
      rcases List.mem_append.mp hother with hother | hother
      · exact hbefore other hother
      · rw [List.mem_singleton.mp hother]
    · refine List.pairwise_append.mpr ⟨h.sorted, List.pairwise_singleton _ _, ?_⟩
      intro earlier hearlier other hother
      rw [List.mem_singleton.mp hother]
      exact hbefore earlier hearlier

theorem Conserved.drainUntil (h : Conserved neutral ledger) (deadline : ℕ) :
    Conserved neutral (ledger.step (.drainUntil deadline)) := by
  rcases ledger.journal.drainUntil_cases deadline with
    ⟨error, hcall⟩ | ⟨frame, hclosed, hdeadline, hheld, hedges, hcall⟩
  · simpa only [step, hcall] using h
  · simp only [step, hcall, take_due]
    have hsamples := ledger.journal.due_append_later deadline
    have hdue : ∀ sample ∈ ledger.journal.due deadline, sample ∈ ledger.journal.samples :=
      fun sample hmem => hsamples ▸ List.mem_append_left _ hmem
    have hlater : ∀ sample ∈ ledger.journal.later deadline, sample ∈ ledger.journal.samples :=
      fun sample hmem => hsamples ▸ List.mem_append_right _ hmem
    have hheld' :
        frame.held =
        lastHeld neutral (consumed (ledger.drains ++ [⟨frame, ledger.journal.due deadline⟩])) := by
      rw [hheld, consumed_snoc, lastHeld_append, h.held]
    refine ⟨?_, ?_, ?_, ?_, ?_, fun sample hmem => h.last sample (hlater sample hmem), ?_⟩
    · rw [h.accepted, consumed_snoc, List.append_assoc, hsamples]
    · intro before drain hle
      rcases List.prefix_concat_iff.mp hle with heq | hle
      · obtain ⟨rfl, rfl⟩ := List.append_singleton_inj.mp heq
        refine ⟨fun sample hmem => ?_, fun sample hmem earlier hearlier => ?_, hedges, hheld'⟩
        · rw [hdeadline]
          simpa using List.mem_takeWhile_imp hmem
        · -- a sample still pending is after all that has been drained
          obtain ⟨closed, hmem', hle⟩ := h.closed earlier hearlier
          exact hle.trans_lt (h.pending sample (hdue sample hmem) closed hmem')
      · exact h.framed before drain hle
    · rw [← hheld, hheld']
    · intro drain hmem
      refine ⟨deadline, rfl, ?_⟩
      rcases List.mem_append.mp hmem with hmem | hmem
      · obtain ⟨closed, hmem', hle⟩ := h.closed drain hmem
        exact hle.trans (hclosed closed hmem')
      · rw [List.mem_singleton.mp hmem]
        exact hdeadline.le
    · rintro sample hmem _ ⟨⟩
      exact lt_of_mem_later h.sorted sample hmem
    · exact h.sorted.sublist (List.dropWhile_sublist _)

theorem Conserved.step (h : Conserved neutral ledger) (call : Call H E F) :
    Conserved neutral (ledger.step call) := by
  cases call with
  | capture sample => exact h.capture sample
  | drainUntil deadline => exact h.drainUntil deadline

omit [Motion F] in
/-- The ledger of a new journal. -/
theorem Conserved.new {capacity : ℕ} {journal : InputJournal H E F}
    (h : new neutral capacity = .ok journal) :
    Conserved neutral ⟨journal, [], []⟩ := by
  unfold InputJournal.new at h
  split at h
  · cases h
  · cases h
    exact ⟨rfl, fun before drain hle => absurd (List.prefix_nil.mp hle)
      (List.append_ne_nil_of_right_ne_nil _ nofun), rfl, nofun, nofun, nofun, .nil⟩

end runs
end Ledger

/-- **Hardware input is conserved.**  After any captures and drains of a new journal: the accepted
samples are those the drains consumed, in order, then the pending ones, which no drain so far was
late enough for; every drain consumed samples due at it and at none before it, and framed their
edges and the last value held; and whatever is called next, a drain never panics and one that fails
changes nothing. -/
theorem drains_conserve {neutral : H} {capacity : ℕ} {start : InputJournal H E F}
    (hnew : new neutral capacity = .ok start) (calls : List (Call H E F)) :
    let ledger := run Ledger.step ⟨start, [], []⟩ calls
    ledger.accepted = Ledger.consumed ledger.drains ++ ledger.journal.samples ∧
    (∀ before drain after, ledger.drains = before ++ drain :: after →
      Ledger.Framed neutral before drain) ∧
    (∀ sample ∈ ledger.journal.samples, ∀ drain ∈ ledger.drains, drain.frame.deadline <
      sample.sampledAt) ∧
    ledger.drains.flatMap (·.frame.edges.1) = edgesOf (Ledger.consumed ledger.drains) ∧
    ∀ deadline, (ledger.journal.drainUntil deadline).2 ≠ .panic ∧
      ∀ error, (ledger.journal.drainUntil deadline).2 = .err error →
        (ledger.journal.drainUntil deadline).1 = ledger.journal := by
  intro ledger
  have h : Ledger.Conserved neutral ledger :=
    run_invariant (fun _ call h => h.step call) (Ledger.Conserved.new hnew) calls
  refine ⟨h.accepted, fun before drain after hdrains => h.framed before drain ⟨after, ?_⟩,
    fun sample hsample drain hdrain => ?_, ?_, fun deadline => ?_⟩
  · rw [hdrains, List.append_assoc, List.singleton_append]
  · obtain ⟨closed, hmem, hle⟩ := h.closed drain hdrain
    exact hle.trans_lt (h.pending sample hsample closed hmem)
  · rw [edgesOf, Ledger.consumed, List.flatMap_assoc]
    refine List.flatMap_congr fun drain hdrain => ?_
    obtain ⟨before, after, hdrains⟩ := List.append_of_mem hdrain
    exact (h.framed before drain ⟨after, by rw [hdrains, List.append_assoc,
      List.singleton_append]⟩).edges
  · rcases ledger.journal.drainUntil_cases deadline with ⟨error, hcall⟩ | ⟨frame, -, -, -, -, hcall⟩
    · exact ⟨by rw [hcall]; exact nofun, fun _ _ => by rw [hcall]⟩
    · exact ⟨by rw [hcall]; exact nofun, fun error herror => by rw [hcall] at herror; cases herror⟩

/-- Motion in whole units. -/
instance wholeMotion : Motion ℤ := ⟨fun value => value.natAbs < 2 ^ 31⟩

/-- A drain of two samples with nine edges fails; the samples are then drained one at a time. -/
def burst : List (Call Bool Bool ℤ) :=
  [.capture ⟨1, some true, ⟨List.replicate 5 true, by decide⟩, (2, 2)⟩,
    .capture ⟨2, some false, ⟨List.replicate 4 false, by decide⟩, (3, 3)⟩,
    .drainUntil 3, .drainUntil 1, .drainUntil 2]

theorem drains_conserve_burst :
    let ledger := run Ledger.step ⟨⟨false, [], 2, none, none⟩, [], []⟩ burst
    ledger.accepted = Ledger.consumed ledger.drains ++ ledger.journal.samples ∧
      ledger.accepted.length = 2 ∧ ledger.drains.map (·.frame.deadline) = [1, 2] :=
  ⟨(drains_conserve (show new false 2 = .ok _ from rfl) burst).1, by decide +kernel,
    by decide +kernel⟩

end InputJournal
end Net
