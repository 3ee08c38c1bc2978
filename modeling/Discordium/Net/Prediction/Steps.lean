import Discordium.Net.Prediction.Manager

/-!
# Net — Prediction — Steps

What the calls on a group can do to its history, once for each call: a tick is appended
(`Appended`), a sample is replaced (`Sampled`), a checkpoint is accepted as it stands (`Agreed`) or
the ticks after it are replayed (`Replayed`).  What the first frames lose is `Popped`.
-/

namespace Net.Prediction
open Lib
open Std (ExtTreeMap)

variable {W S C D : Type}

namespace GroupHistory

/-! ### Dropped frames -/

/-- A history that lost some of its first frames, each while the condition held. -/
structure Popped (cond : ℕ → ℕ → Bool) (h h' : GroupHistory S C D) : Prop where
  cut : ∃ n, Cut h.frames h'.frames n ∧ ∀ k < n, k ∈ h.frames → ∃ size, cond k size = true
  stop : ∀ first, firstTick h'.frames = some first → cond first h'.frames.size = false
  /-- The condition held before the last frame was dropped. -/
  kept : h'.frames.size = h.frames.size ∨ ∃ k, cond k (h'.frames.size + 1) = true
  bytes : h'.bytes + total HistoryFrame.bytes h.frames =
    h.bytes + total HistoryFrame.bytes h'.frames
  size : h'.frames.size ≤ h.frames.size
  le : h'.bytes ≤ h.bytes
  rest : h' = { h with frames := h'.frames, bytes := h'.bytes }

variable {h : GroupHistory S C D} {first fuel : ℕ} {cond : ℕ → ℕ → Bool}

theorem firstTick_lookup (hfirst : firstTick h.frames = some first) :
    ∃ frame, h.frames[first]? = some frame :=
  mem_iff_lookup.mp (firstTick_eq_some.mp hfirst).1

theorem size_erase_first (hfirst : firstTick h.frames = some first) :
    (h.frames.erase first).size + 1 = h.frames.size := by
  have hmem := (firstTick_eq_some.mp hfirst).1
  have hpos : 0 < h.frames.size := by
    rw [Nat.pos_iff_ne_zero]
    intro hzero
    have hempty : h.frames = ∅ := ExtTreeMap.eq_empty_iff_size_eq_zero.mpr hzero
    simp [hempty] at hmem
  rw [ExtTreeMap.size_erase, if_pos (ExtTreeMap.contains_iff_mem.mpr hmem)]
  omega

theorem popWhile_popped {h' : GroupHistory S C D}
    (hfuel : h.frames.size ≤ fuel) (hpop : popWhile cond fuel h = .ok h') : Popped cond h h' := by
  induction fuel generalizing h with
  | zero =>
    cases hpop
    refine ⟨⟨0, .refl _, by simp⟩, fun first hfirst => ?_, .inl rfl, rfl, le_rfl, le_rfl, rfl⟩
    have := size_erase_first hfirst
    omega
  | succ fuel ih =>
    unfold popWhile at hpop
    cases hfirst : firstTick h.frames with
    | none =>
      rw [hfirst] at hpop
      cases hpop
      exact ⟨⟨0, .refl _, by simp⟩, by simp [hfirst], .inl rfl, rfl, le_rfl, le_rfl, rfl⟩
    | some first =>
      rw [hfirst] at hpop
      dsimp only at hpop
      split at hpop
      · rename_i hcond
        obtain ⟨frame, hframe⟩ := firstTick_lookup hfirst
        rw [hframe, Option.bind_some] at hpop
        split at hpop
        · cases hpop
        · rename_i bytes hsub
          have hsize := size_erase_first hfirst
          obtain ⟨hle', rfl⟩ := checkedSub_eq_some.mp hsub
          obtain ⟨⟨n, hcut, hwhile⟩, hstop, hkept, hbytes, hle, hless, hrest⟩ :=
            ih (by dsimp only; omega) hpop
          refine ⟨⟨_, (Cut.erase_first hfirst).trans hcut, fun k hk hmem => ?_⟩, hstop, ?_, ?_, ?_,
            ?_, hrest⟩
          · by_cases heq : k = first
            · exact ⟨_, heq ▸ hcond⟩
            · have hfirst_le := (firstTick_eq_some.mp hfirst).2 k hmem
              refine hwhile k (by omega) ?_
              exact (Cut.erase_first hfirst).mem.mpr ⟨by omega, hmem⟩
          · rcases hkept with hsame | hlater
            · refine .inr ⟨first, ?_⟩
              dsimp only at hsame
              rwa [hsame, hsize]
            · exact .inr hlater
          · have htotal := total_erase HistoryFrame.bytes hframe
            dsimp only at hbytes
            omega
          · dsimp only at hle
            omega
          · exact hless.trans (Nat.sub_le _ _)
      · rename_i hcond
        cases hpop
        refine ⟨⟨0, .refl _, by simp⟩, fun k hk => ?_, .inl rfl, rfl, le_rfl, le_rfl, rfl⟩
        rw [hfirst, Option.some.injEq] at hk
        exact hk ▸ Bool.eq_false_iff.mpr hcond

theorem popWhile_ne_error (hbytes : total HistoryFrame.bytes h.frames ≤ h.bytes) (halt : Halt) :
    popWhile cond fuel h ≠ .error halt := by
  induction fuel generalizing h with
  | zero => exact nofun
  | succ fuel ih =>
    unfold popWhile
    cases hfirst : firstTick h.frames with
    | none => exact nofun
    | some first =>
      dsimp only
      split
      · obtain ⟨frame, hframe⟩ := firstTick_lookup hfirst
        have htotal := total_erase HistoryFrame.bytes hframe
        have hle : frame.bytes ≤ h.bytes := by omega
        rw [hframe, Option.bind_some, checkedSub, if_pos hle]
        refine ih ?_
        dsimp only
        omega
      · exact nofun

end GroupHistory
namespace PredictionManager
variable [Payload S] [Payload C] [Payload D] [PredictionLayout S C D]
  {m : PredictionManager S C D} {model : PredictionModel W S C D}

/-! ### What the checks have checked -/

variable {bytes target tick finalizedThrough predicted checkpoint : ℕ} {u : Unit}
  {state previous : S} {binding : PredictionBinding} {frame dependencies : DependencyFrame D}
  {h h' : GroupHistory S C D} {input : ReplayInput C} {sequence : Option ℕ} {changes : EventChanges}
  {work : PredictionWork} {proof : PublishedProof W} {decoded : DecodedPrediction S D}
  {correction : Correction} {staged : List (Staged S)}

omit [Payload S] [Payload C] [Payload D] [PredictionLayout S C D] in
theorem reserve_eq_ok :
    m.reserve bytes = .ok u ↔ m.bytes + bytes ≤ m.limits.historyBytes ∧
      m.bytes + bytes ≤ wordMax 64 := by
  simp only [reserve, checkedAdd_any_le]
  split_ifs with h <;> simp [h]

theorem orCapacity_eq_ok {α : Type} {x : Option α} {a : α} : orCapacity x = .ok a ↔ x = some a := by
  cases x <;> simp [orCapacity]

omit [Payload C] [Payload D] in
/-- A valid state owns no more than a checkpoint may. -/
theorem validateState_ok (h : m.validateState state model = .ok u) :
    Payload.retainedBytes state ≤ m.limits.checkpointBytes := by
  unfold validateState at h
  split_ifs at h
  obtain ⟨bytes, hbytes, h⟩ := bind_eq_ok.mp h
  split_ifs at h with hlimit
  have hsum := (checkedAdd_eq_some.mp (orCapacity_eq_ok.mp hbytes)).1
  omega

omit [Payload S] [Payload C] in
theorem validateDependencyRecords_ok (h : m.validateDependencyRecords binding frame = .ok u) :
    ∃ bytes, dependencyBytes S C D frame = .ok bytes ∧ bytes ≤ m.limits.dependencyBytes := by
  unfold validateDependencyRecords at h
  split at h
  · cases h
  obtain ⟨bytes, hbytes, h⟩ := bind_eq_ok.mp h
  split at h
  · cases h
  · rename_i hlimit
    exact ⟨bytes, hbytes, not_lt.mp hlimit⟩

omit [Payload S] [Payload C] in
theorem validateDependencies_ok {command : Option C}
    (h : m.validateDependencies binding state command frame model = .ok u) :
    ∃ bytes, dependencyBytes S C D frame = .ok bytes ∧ bytes ≤ m.limits.dependencyBytes := by
  obtain ⟨_, hrecords, -⟩ := bind_eq_ok.mp h
  exact validateDependencyRecords_ok hrecords

omit [Payload S] [Payload C] [Payload D] [PredictionLayout S C D] in
theorem validEvents_card {connection : ℕ} {events : Finset ActionKey}
    (h : m.validEvents connection events = true) : events.card ≤ m.limits.eventsPerTick :=
  (of_decide_eq_true h).1

/-! ### A predicted tick -/

/-- A history with one more tick. -/
inductive Appended (m : PredictionManager S C D) (model : PredictionModel W S C D)
    (h : GroupHistory S C D) (target : ℕ) (input : ReplayInput C) (dependencies : DependencyFrame D)
    (h' : GroupHistory S C D) : Prop where
  | intro (current : ℕ) (previous : HistoryFrame S C D) (state : S) (events : Finset ActionKey)
      (bytes : ℕ) (sequence : Option ℕ) (hcurrent : lastTick h.frames = some current)
      (hprevious : h.frames[current]? = some previous) (htarget : target = current + 1)
      (hstep : stepInput model previous.state target input dependencies = .ok (state, events))
      (hbytes : framePartsBytes state (some input) dependencies events = .ok bytes)
      (hreserve : m.bytes + bytes ≤ m.limits.historyBytes)
      (hpopped : GroupHistory.Popped (fun _ size => m.limits.historyTicks + 1 < size) { h with
        bytes := h.bytes + bytes
        frames := h.frames.insert target ⟨state, some input, dependencies, events, bytes⟩
        lastSequence := sequence } h')

omit [Payload S] in
theorem admitInput_ok [BEq C]
    (hadmitted : m.admitInput h target input dependencies model = .ok (some (previous, sequence))) :
    ∃ (current : ℕ) (frame : HistoryFrame S C D), lastTick h.frames = some current ∧
      h.frames[current]? = some frame ∧ frame.state = previous ∧ target = current + 1 := by
  unfold admitInput at hadmitted
  split at hadmitted
  · cases hadmitted
  split at hadmitted
  · cases hadmitted
  split at hadmitted
  · cases hadmitted
  split at hadmitted
  · split_ifs at hadmitted
    cases hadmitted
  split at hadmitted
  · cases hadmitted
  rename_i current frame hlast
  split at hadmitted
  · cases hadmitted
  rename_i htarget
  split at hadmitted
  · cases hadmitted
  split at hadmitted
  · cases hadmitted
  split at hadmitted
  · cases hadmitted
  obtain ⟨_, -, heq⟩ := map_eq_ok.mp hadmitted
  obtain ⟨last, hmax, hframe⟩ := Option.bind_eq_some_iff.mp hlast
  obtain ⟨found, hfound, hpair⟩ := Option.map_eq_some_iff.mp hframe
  cases hpair
  push Not at htarget
  simp only [Option.some.injEq, Prod.mk.injEq] at heq
  exact ⟨current, frame, hmax, hfound, heq.1, (checkedNext_eq_some.mp htarget.1).1⟩

theorem advance_ok
    (hadvance : m.advance h previous sequence target input dependencies model = .ok (h', changes)) :
    ∃ state events bytes, stepInput model previous target input dependencies = .ok (state, events) ∧
      framePartsBytes state (some input) dependencies events = .ok bytes ∧
      m.bytes + bytes ≤ m.limits.historyBytes ∧
      GroupHistory.Popped (fun _ size => m.limits.historyTicks + 1 < size) { h with
        bytes := h.bytes + bytes
        frames := h.frames.insert target ⟨state, some input, dependencies, events, bytes⟩
        lastSequence := sequence <|> h.lastSequence } h' := by
  unfold advance at hadvance
  split at hadvance
  · cases hadvance
  rename_i state events hstep
  split at hadvance
  · cases hadvance
  split at hadvance
  · cases hadvance
  rename_i bytes hbytes
  split at hadvance
  · cases hadvance
  rename_i hreserve
  obtain ⟨trimmed, htrim, heq⟩ := map_eq_ok.mp hadvance
  cases heq
  exact ⟨state, events, bytes, hstep, hbytes, (reserve_eq_ok.mp hreserve).1,
    GroupHistory.popWhile_popped le_rfl htrim⟩

/-- **What a predicted tick can do.** -/
theorem predictGroup_ok [BEq C]
    (hp : m.predictGroup h target input dependencies model = (work, .ok (h', changes))) :
    h' = h ∨ Appended m model h target input dependencies h' := by
  unfold predictGroup at hp
  split at hp
  · cases hp
  · cases hp
    exact .inl rfl
  · rename_i previous sequence hadmitted
    obtain ⟨-, hadvance⟩ := Prod.mk.inj hp
    obtain ⟨current, frame, hmax, hframe, rfl, htarget⟩ := admitInput_ok hadmitted
    obtain ⟨state, events, bytes, hstep, hbytes, hreserve, hpopped⟩ := advance_ok hadvance
    exact .inr ⟨current, frame, state, events, bytes, _, hmax, hframe, htarget, hstep,
      hbytes, hreserve, hpopped⟩

/-! ### A replaced sample -/

/-- A history with another sample at a tick. -/
inductive Sampled (m : PredictionManager S C D) (h : GroupHistory S C D) (tick : ℕ)
    (dependencies : DependencyFrame D) (h' : GroupHistory S C D) : Prop where
  | intro (old : HistoryFrame S C D) (dependencyBytes' size : ℕ) (hold : h.frames[tick]? = some old)
      (hdependencies : dependencyBytes S C D dependencies = .ok dependencyBytes')
      (hreserve : m.bytes + dependencyBytes' ≤ m.limits.historyBytes)
      (hsize : framePartsBytes old.state old.input dependencies old.events = .ok size)
      (hle : old.bytes ≤ h.bytes)
      (heq : h' = { h with
        frames := h.frames.insert tick { old with dependencies, bytes := size }
        bytes := h.bytes - old.bytes + size
        dirtyFrom := some ((h.dirtyFrom.map (min · tick)).getD tick) })

theorem updateGroup_ok [BEq D] (hu : m.updateGroup h tick dependencies = .ok (h', u)) :
    h' = h ∨ Sampled m h tick dependencies h' := by
  unfold updateGroup at hu
  split at hu
  · cases hu
  split at hu
  · cases hu
  split at hu
  · cases hu
  rename_i old hold
  split at hu
  · cases hu
  split at hu
  · cases hu
    exact .inl rfl
  split at hu
  · cases hu
  rename_i hreserve
  split at hu
  · cases hu
  rename_i size hsize
  split at hu
  · cases hu
  rename_i rest hrest
  cases hu
  obtain ⟨bytes, hbytes, hreserve⟩ := bind_eq_ok.mp hreserve
  obtain ⟨hle, rfl⟩ := checkedSub_eq_some.mp hrest
  exact .inr ⟨old, bytes, size, hold, hbytes, (reserve_eq_ok.mp hreserve).1, hsize, hle, rfl⟩

/-! ### A checkpoint -/

/-- A proof that was let through to the comparison with the prediction. -/
structure Admitted (m : PredictionManager S C D) (model : PredictionModel W S C D)
    (h : GroupHistory S C D) (proof : PublishedProof W) (binding : PredictionBinding)
    (frame : HistoryFrame S C D) (predicted : ℕ) (decoded : DecodedPrediction S D) : Prop where
  revision : proof.publication.revision = h.identity.groupRevision
  snapshot : h.lastSnapshot < proof.publication.snapshot
  tick : h.lastCheckpoint ≤ proof.endTick
  last : lastTick h.frames = some predicted
  le : proof.endTick ≤ predicted
  found : h.frames[proof.endTick]? = some frame
  reserve : m.bytes + (m.limits.checkpointBytes + m.limits.dependencyBytes) ≤ m.limits.historyBytes
  decodes : model.decodeGroup proof binding = .ok decoded
  state : Payload.retainedBytes decoded.state ≤ m.limits.checkpointBytes
  dependencies : ∃ bytes, dependencyBytes S C D decoded.dependencies = .ok bytes ∧
    bytes ≤ m.limits.dependencyBytes

omit [Payload C] in
theorem admitProof_ok {frame : HistoryFrame S C D}
    (hadmitted : m.admitProof h proof binding finalizedThrough model =
      .ok (some (frame, predicted, decoded))) :
    Admitted m model h proof binding frame predicted decoded := by
  unfold admitProof at hadmitted
  dsimp only at hadmitted
  split at hadmitted
  · cases hadmitted
  split at hadmitted
  · cases hadmitted
  split at hadmitted
  · cases hadmitted
  rename_i hstale
  split at hadmitted
  · cases hadmitted
  rename_i hidentity
  split at hadmitted
  · cases hadmitted
  rename_i predicted' hpredicted
  split at hadmitted
  · cases hadmitted
  rename_i hahead
  split at hadmitted
  · cases hadmitted
  split at hadmitted
  · cases hadmitted
  rename_i frame' hframe
  split at hadmitted
  · cases hadmitted
  rename_i scratch hscratch
  split at hadmitted
  · cases hadmitted
  rename_i hreserve
  split at hadmitted
  · cases hadmitted
  rename_i decoded' hdecoded
  split at hadmitted
  · cases hadmitted
  rename_i hstate
  split at hadmitted
  · cases hadmitted
  rename_i hdependencies
  cases hadmitted
  push Not at hstale hidentity
  exact
    { revision := hidentity.1
      snapshot := hstale.2.1 hidentity.1
      tick := hstale.2.2
      last := hpredicted
      le := not_lt.mp hahead
      found := hframe
      reserve := by
        have := (checkedAdd_eq_some.mp hscratch).1
        have := (reserve_eq_ok.mp hreserve).1
        omega
      decodes := hdecoded
      state := validateState_ok hstate
      dependencies := validateDependencies_ok hdependencies }

/-- A checkpoint that agreed with the prediction. -/
inductive Agreed (h : GroupHistory S C D) (proof : PublishedProof W) (frame : HistoryFrame S C D)
    (decoded : DecodedPrediction S D) (h' : GroupHistory S C D) : Prop where
  | intro (bytes : ℕ) (popped : GroupHistory S C D)
      (hbytes : framePartsBytes decoded.state (none : Option (ReplayInput C))
        decoded.dependencies ∅ =
        .ok bytes)
      (hle : frame.bytes ≤ h.bytes)
      (hpopped : GroupHistory.Popped (fun first _ => first < proof.endTick) { h with
        frames := h.frames.insert proof.endTick (checkpointFrame decoded bytes)
        bytes := h.bytes - frame.bytes + bytes } popped)
      (heq : h' = { popped with
        lastSnapshot := proof.publication.snapshot, lastCheckpoint := proof.endTick })

theorem acceptEqual_ok {frame : HistoryFrame S C D}
    (ha : acceptEqual h frame proof decoded = .ok (h', correction)) :
    correction = .equal ∧ Agreed h proof frame decoded h' := by
  unfold acceptEqual at ha
  split at ha
  · cases ha
  rename_i bytes hbytes
  split at ha
  · cases ha
  rename_i rest hrest
  obtain ⟨popped, hpop, heq⟩ := map_eq_ok.mp ha
  cases heq
  obtain ⟨hle, rfl⟩ := checkedSub_eq_some.mp hrest
  exact ⟨rfl, bytes, popped, hbytes, hle, GroupHistory.popWhile_popped le_rfl hpop, rfl⟩

/-! ### A replay -/

/-- What the frame of a tick becomes when it is replayed. -/
def Staged.onto (checkpoint : ℕ) (staged : Staged S) (frame : HistoryFrame S C D) :
    HistoryFrame S C D :=
  { frame with
    state := staged.state
    events := staged.events
    input := if staged.tick = checkpoint then none else frame.input
    bytes := staged.bytes }

/-- The frames of consecutive ticks are published, and no others. -/
structure Published (checkpoint tick : ℕ) (staged : List (Staged S)) (h h' : GroupHistory S C D) :
    Prop where
  apart : ∀ k, k < tick ∨ tick + staged.length ≤ k → h'.frames[k]? = h.frames[k]?
  frame : ∀ i s, staged[i]? = some s → ∃ frame, h.frames[tick + i]? = some frame ∧
    h'.frames[tick + i]? = some (s.onto checkpoint frame)
  bytes : h'.bytes + total HistoryFrame.bytes h.frames =
    h.bytes + total HistoryFrame.bytes h'.frames
  /-- The bytes grow by no more than the frames do. -/
  growth : ∀ excess : ℕ → ℕ, (∀ i s frame, staged[i]? = some s → h.frames[tick + i]? = some frame →
    s.bytes ≤ frame.bytes + excess i) →
      h'.bytes ≤ h.bytes + ∑ i ∈ Finset.range staged.length, excess i
  rest : h' = { h with frames := h'.frames, bytes := h'.bytes }

omit [Payload S] [Payload C] [Payload D] [PredictionLayout S C D] in
theorem publishFrame_ok {staged : Staged S} (hp : publishFrame checkpoint h staged = .ok h') :
    ∃ frame, h.frames[staged.tick]? = some frame ∧ frame.bytes ≤ h.bytes ∧
      h' = { h with
        frames := h.frames.insert staged.tick (staged.onto checkpoint frame)
        bytes := h.bytes - frame.bytes + staged.bytes } := by
  unfold publishFrame at hp
  split at hp
  · cases hp
  rename_i frame hframe
  split at hp
  · cases hp
  rename_i rest hrest
  cases hp
  obtain ⟨hle, rfl⟩ := checkedSub_eq_some.mp hrest
  exact ⟨frame, hframe, hle, rfl⟩

omit [Payload S] [Payload C] [Payload D] [PredictionLayout S C D] in
theorem loop_published (hticks : ∀ i s, staged[i]? = some s → s.tick = tick + i)
    (hloop : loop (publishFrame checkpoint) h staged = .ok h') :
    Published checkpoint tick staged h h' := by
  induction staged generalizing h tick with
  | nil =>
    cases hloop
    exact ⟨fun _ _ => rfl, by simp, rfl, by simp, rfl⟩
  | cons s staged ih =>
    obtain ⟨h₁, hfirst, hloop⟩ := bind_eq_ok.mp hloop
    obtain ⟨frame, hframe, hle, rfl⟩ := publishFrame_ok hfirst
    have hs : s.tick = tick := hticks 0 s rfl
    rw [hs] at hframe
    have hlater : ∀ i s', staged[i]? = some s' → s'.tick = tick + 1 + i := fun i s' hi => by
      rw [hticks (i + 1) s' hi]
      omega
    obtain ⟨hapart, hrest, hbytes, hgrowth, heq⟩ := ih hlater hloop
    dsimp only at hapart hrest hbytes hgrowth heq
    rw [hs] at hapart hrest hbytes hgrowth
    have hlookup : ∀ k, (h.frames.insert tick (s.onto checkpoint frame))[k]? =
        if tick = k then some (s.onto checkpoint frame) else h.frames[k]? :=
          fun k => lookup_insert ..
    refine ⟨fun k hk => ?_, fun i s' hi => ?_, ?_, fun excess hexcess => ?_, heq⟩
    · rw [List.length_cons] at hk
      rw [hapart k (by omega), hlookup, if_neg (by omega)]
    · cases i with
      | zero =>
        cases hi
        refine ⟨frame, hframe, ?_⟩
        rw [Nat.add_zero, hapart tick (by omega), hlookup, if_pos rfl]
      | succ i =>
        obtain ⟨frame', hframe', hafter⟩ := hrest i s' hi
        rw [hlookup, if_neg (by omega)] at hframe'
        rw [Nat.add_right_comm, Nat.add_assoc] at hframe' hafter
        exact ⟨frame', hframe', hafter⟩
    · have hold := total_erase HistoryFrame.bytes hframe
      rw [total_insert] at hbytes
      have hsb : (s.onto checkpoint frame).bytes = s.bytes := rfl
      omega
    · have hfirst := hexcess 0 s frame rfl hframe
      have hothers := hgrowth (fun i => excess (i + 1)) fun i s' frame' hi hframe' => by
        rw [hlookup, if_neg (by omega), Nat.add_right_comm, Nat.add_assoc] at hframe'
        exact hexcess (i + 1) s' frame' hi hframe'
      rw [List.length_cons, Finset.sum_range_succ']
      omega

/-- The ticks from one on, stepped with what they recorded from a state on. -/
structure Restepped (m : PredictionManager S C D) (model : PredictionModel W S C D)
    (h : GroupHistory S C D) (tick : ℕ) (previous : S) (staged : List (Staged S)) : Prop where
  ticks : ∀ i s, staged[i]? = some s → s.tick = tick + i
  stepped : ∀ i s, staged[i]? = some s → ∃ before frame input,
    (previous :: staged.map Staged.state)[i]? = some before ∧
    h.frames[tick + i]? = some frame ∧ frame.input = some input ∧
    stepInput model before (tick + i) input frame.dependencies = .ok (s.state, s.events)
  charged : ∀ i s, staged[i]? = some s → ∃ frame : HistoryFrame S C D,
    h.frames[tick + i]? = some frame ∧
    framePartsBytes s.state frame.input frame.dependencies s.events = .ok s.bytes ∧
    Payload.retainedBytes s.state ≤ m.limits.checkpointBytes ∧
    s.events.card ≤ m.limits.eventsPerTick

/-- The ticks of a checkpoint and what is stepped from it. -/
theorem Restepped.staged_ticks (hr : Restepped m model h (tick + 1) state staged) (i : ℕ)
    (s : Staged S) (hi : ((⟨tick, state, ∅, bytes⟩ : Staged S) :: staged)[i]? = some s) :
    s.tick = tick + i := by
  cases i with
  | zero =>
    cases hi
    rfl
  | succ i =>
    rw [hr.ticks i s hi]
    omega

theorem replayFrom_ok {count : ℕ}
    (hr : m.replayFrom h binding model tick previous count = .ok staged) :
    staged.length = count ∧ Restepped m model h tick previous staged := by
  induction count generalizing tick previous staged with
  | zero =>
    cases hr
    exact ⟨rfl, by simp, by simp, by simp⟩
  | succ count ih =>
    unfold replayFrom at hr
    split at hr
    · cases hr
    rename_i frame hframe
    split at hr
    · cases hr
    rename_i input hinput
    split at hr
    · cases hr
    split at hr
    · cases hr
    rename_i state events hstep
    split at hr
    · cases hr
    rename_i hvalid
    split at hr
    · cases hr
    rename_i bytes hbytes
    obtain ⟨rest, hrest, rfl⟩ := map_eq_ok.mp hr
    obtain ⟨hlength, hticks, hstepped, hcharged⟩ := ih hrest
    push Not at hvalid
    obtain ⟨hstate, hevents⟩ := hvalid
    have hstate : Payload.retainedBytes state ≤ m.limits.checkpointBytes := by
      cases hv : m.validateState state model with
      | error error => simp [hv, Except.toOption] at hstate
      | ok u => exact validateState_ok hv
    have hadd : ∀ i, tick + 1 + i = tick + (i + 1) := fun i => by omega
    refine ⟨by rw [List.length_cons, hlength], fun i s hi => ?_, fun i s hi => ?_, fun i s hi => ?_⟩
    · cases i with
      | zero =>
        cases hi
        rfl
      | succ i => rw [hticks i s hi, hadd]
    · cases i with
      | zero =>
        cases hi
        exact ⟨previous, frame, input, rfl, hframe, hinput, hstep⟩
      | succ i =>
        obtain ⟨before, frame', input', hb, hf, hin, hs⟩ := hstepped i s hi
        rw [hadd] at hf hs
        exact ⟨before, frame', input', hb, hf, hin, hs⟩
    · cases i with
      | zero =>
        cases hi
        exact ⟨frame, hframe, hinput ▸ hbytes, hstate, validEvents_card (by simpa using hevents)⟩
      | succ i =>
        obtain ⟨frame', hf, hrest'⟩ := hcharged i s hi
        rw [hadd] at hf
        exact ⟨frame', hf, hrest'⟩

/-- A history whose ticks after a checkpoint were replayed. -/
inductive Replayed (m : PredictionManager S C D) (model : PredictionModel W S C D)
    (h : GroupHistory S C D) (proof : PublishedProof W) (predicted : ℕ)
    (decoded : DecodedPrediction S D) (h' : GroupHistory S C D) : Prop where
  | intro (bytes : ℕ) (staged : List (Staged S)) (frame : HistoryFrame S C D)
      (published popped : GroupHistory S C D)
      (hbytes : framePartsBytes decoded.state (none : Option (ReplayInput C))
        decoded.dependencies ∅ =
        .ok bytes)
      (hlength : staged.length = predicted - proof.endTick)
      (hstepped : Restepped m model h (proof.endTick + 1) decoded.state staged)
      (hpublished : Published proof.endTick proof.endTick
        (⟨proof.endTick, decoded.state, ∅, bytes⟩ :: staged)
        h published)
      (hframe : published.frames[proof.endTick]? = some frame)
      (hpopped : GroupHistory.Popped (fun first _ => first < proof.endTick) { published with
        frames := published.frames.insert proof.endTick
          { frame with dependencies := decoded.dependencies } } popped)
      (heq : h' = { popped with
        lastSnapshot := proof.publication.snapshot
        lastCheckpoint := proof.endTick
        dirtyFrom := none })

theorem replay_ok (hr : m.replay h proof binding predicted decoded model = .ok (h', correction)) :
    (correction = .replaced ∨ ∃ changes,
      correction = .replayed (proof.endTick + 1) predicted changes) ∧
        Replayed m model h proof predicted decoded h' := by
  unfold replay at hr
  split at hr
  · cases hr
  rename_i bytes hbytes
  obtain ⟨staged, hstaged, hr⟩ := bind_eq_ok.mp hr
  obtain ⟨hlength, hstepped⟩ := replayFrom_ok hstaged
  unfold publish at hr
  obtain ⟨published, hloop, hr⟩ := bind_eq_ok.mp hr
  split at hr
  · cases hr
  rename_i frame hframe
  obtain ⟨popped, hpop, heq⟩ := map_eq_ok.mp hr
  cases heq
  have hpublished := loop_published hstepped.staged_ticks hloop
  refine ⟨?_, bytes, staged, frame, published, popped, hbytes, hlength, hstepped,
    hpublished, hframe, GroupHistory.popWhile_popped le_rfl hpop, rfl⟩
  split_ifs
  · exact .inl rfl
  · exact .inr ⟨_, rfl⟩

omit [Payload S] [Payload C] [Payload D] in
/-- What the budget of a replay has reserved. -/
theorem checkReplayBudget_ok {members ticks steps : ℕ}
    (h : m.checkReplayBudget members ticks = .ok steps) :
    ∃ perFrame, m.limits.checkpointBytes +
        m.limits.eventsPerTick * (entryOverhead + PredictionLayout.actionKey S C D) ≤ perFrame ∧
      m.bytes + ((ticks + 1) * perFrame + m.limits.dependencyBytes) ≤ m.limits.historyBytes := by
  unfold checkReplayBudget at h
  split at h
  · cases h
  split at h
  · cases h
  split at h
  · cases h
  rename_i perFrame hper
  split at h
  · cases h
  rename_i scratch hscratch
  split at h
  · cases h
  rename_i hreserve
  obtain ⟨events, hevents, hper⟩ := Option.bind_eq_some_iff.mp hper
  obtain ⟨n, hn, hper⟩ := Option.bind_eq_some_iff.mp hper
  obtain ⟨k, hk, hscratch⟩ := Option.bind_eq_some_iff.mp hscratch
  obtain ⟨e, he, hevents⟩ := Option.bind_eq_some_iff.mp hevents
  have hn := (checkedAdd_eq_some.mp hn).1
  have hper := (checkedAdd_eq_some.mp hper).1
  have hscratch := (checkedAdd_eq_some.mp hscratch).1
  have he := (checkedMul_eq_some.mp he).1
  have hevents := (checkedMul_eq_some.mp hevents).1
  have hk := (checkedMul_eq_some.mp hk).1
  have hreserve := (reserve_eq_ok.mp hreserve).1
  refine ⟨perFrame, ?_, by omega⟩
  rw [Nat.add_comm entryOverhead]
  omega

/-- **What a checkpoint can do**: it is stale, or agrees, or has the ticks after it replayed. -/
theorem reconcileGroup_ok [BEq S] [BEq D]
    (hr : m.reconcileGroup h proof binding finalizedThrough model = (work, .ok (h', correction))) :
    (correction = .stale ∧ h' = h) ∨
    ∃ frame predicted decoded, Admitted m model h proof binding frame predicted decoded ∧
      ((correction = .equal ∧ (decoded.state == frame.state) = true ∧
          (decoded.dependencies == frame.dependencies) = true ∧ h.dirtyFrom = none ∧
          Agreed h proof frame decoded h') ∨
        ((correction = .replaced ∨ ∃ changes,
          correction = .replayed (proof.endTick + 1) predicted changes) ∧
            (∃ perFrame, m.limits.checkpointBytes +
              m.limits.eventsPerTick * (entryOverhead + PredictionLayout.actionKey S C D) ≤
                perFrame ∧
            m.bytes + ((predicted - proof.endTick + 1) * perFrame + m.limits.dependencyBytes) ≤
              m.limits.historyBytes) ∧
          Replayed m model h proof predicted decoded h')) := by
  unfold reconcileGroup at hr
  split at hr
  · cases hr
  · cases hr
    exact .inl ⟨rfl, rfl⟩
  · rename_i frame predicted decoded hadmitted
    refine .inr ⟨frame, predicted, decoded, admitProof_ok hadmitted, ?_⟩
    split at hr
    · split at hr
      · cases hr
      · rename_i steps hbudget
        obtain ⟨-, hreplay⟩ := Prod.mk.inj hr
        obtain ⟨hcorrection, hreplayed⟩ := replay_ok hreplay
        exact .inr ⟨hcorrection, checkReplayBudget_ok hbudget, hreplayed⟩
    · rename_i hagrees
      obtain ⟨-, hequal⟩ := Prod.mk.inj hr
      obtain ⟨hcorrection, hagreed⟩ := acceptEqual_ok hequal
      simp only [Bool.or_eq_true, not_or, bne, Bool.not_eq_true', Bool.not_eq_false,
        Option.isSome_iff_ne_none, ne_eq, not_not] at hagrees
      exact .inl ⟨hcorrection, hagrees.1.1, hagrees.1.2, hagrees.2, hagreed⟩

end PredictionManager
end Net.Prediction
