import Discordium.Net.Prediction.Replay

/-!
# Net — Prediction — Charges

The books of one group.  `Booked`: every frame is charged exactly what its parts measure, and the
group's bytes are the charge for its identity and those of its frames.  Every call on a group keeps
its books, grows them by no more than it reserved (`Touched.booked`), and in a group with its books
in order no subtraction and no `expect` fails.
-/

namespace Net.Prediction
open Lib
open Std (ExtTreeMap)

variable {W S C D : Type} [Payload S] [Payload C] [Payload D] [PredictionLayout S C D]

/-! ### The charge of a frame -/

/-- A frame is charged for its parts. -/
theorem framePartsBytes_ok {state : S} {input : Option (ReplayInput C)}
    {dependencies : DependencyFrame D} {events : Finset ActionKey} {bytes : ℕ}
    (h : framePartsBytes state input dependencies events = .ok bytes) :
    ∃ sample, dependencyBytes S C D dependencies = .ok sample ∧
      bytes = PredictionLayout.historyFrame S C D + entryOverhead + Payload.retainedBytes state +
        inputRetained input + sample +
        events.card * (entryOverhead + PredictionLayout.actionKey S C D) := by
  obtain ⟨a, ha, h⟩ := Option.bind_eq_some_iff.mp (PredictionManager.orCapacity_eq_ok.mp h)
  obtain ⟨b, hb, h⟩ := Option.bind_eq_some_iff.mp h
  obtain ⟨c, hc, h⟩ := Option.bind_eq_some_iff.mp h
  obtain ⟨sample, hsample, hc⟩ := Option.bind_eq_some_iff.mp hc
  obtain ⟨charge, hcharge, h⟩ := Option.bind_eq_some_iff.mp h
  have hsample : dependencyBytes S C D dependencies = .ok sample := by
    cases hd : dependencyBytes S C D dependencies with
    | error error => simp [hd, Except.toOption] at hsample
    | ok n =>
      rw [hd] at hsample
      exact congrArg _ (Option.some.inj hsample)
  have hcharge : eventBytes S C D events = .ok charge := by
    cases he : eventBytes S C D events with
    | error error => simp [he, Except.toOption] at hcharge
    | ok n =>
      rw [he] at hcharge
      exact congrArg _ (Option.some.inj hcharge)
  have ha := (checkedAdd_eq_some.mp ha).1
  have hb := (checkedAdd_eq_some.mp hb).1
  have hc := (checkedAdd_eq_some.mp hc).1
  have hcharge := (checkedMul_eq_some.mp (PredictionManager.orCapacity_eq_ok.mp hcharge)).1
  have h := (checkedAdd_eq_some.mp h).1
  exact ⟨sample, hsample, by omega⟩

/-- The frame is charged exactly what its parts measure. -/
def HistoryFrame.Charged (frame : HistoryFrame S C D) : Prop :=
  framePartsBytes frame.state frame.input frame.dependencies frame.events = .ok frame.bytes

/-- The books of a group are in order. -/
structure Booked (limits : PredictionLimits) (h : GroupHistory S C D) : Prop where
  charged : ∀ (k : ℕ) (frame : HistoryFrame S C D), h.frames[k]? = some frame → frame.Charged
  bytes : ∃ identity, PredictionManager.identityBytes S C D h.identity.scopes.length =
    some identity ∧ h.bytes = identity + total HistoryFrame.bytes h.frames
  held : ∃ k, k ∈ h.frames
  size : h.frames.size ≤ limits.historyTicks + 1

variable {limits : PredictionLimits} {h h' : GroupHistory S C D}

/-- **Rule for a change of frames**: the bytes follow the frames. -/
theorem Booked.change (hb : Booked limits h) (hidentity : h'.identity = h.identity)
    (hcharged : ∀ (k : ℕ) (frame : HistoryFrame S C D), h'.frames[k]? = some frame → frame.Charged)
    (hbytes : h'.bytes + total HistoryFrame.bytes h.frames =
      h.bytes + total HistoryFrame.bytes h'.frames)
    (hheld : ∃ k, k ∈ h'.frames) (hsize : h'.frames.size ≤ limits.historyTicks + 1) :
    Booked limits h' where
  charged := hcharged
  bytes := by
    obtain ⟨identity, hid, heq⟩ := hb.bytes
    exact ⟨identity, hidentity ▸ hid, by omega⟩
  held := hheld
  size := hsize

/-- A frame's bytes are among the group's. -/
theorem Booked.frame_le (hb : Booked limits h) {k : ℕ} {frame : HistoryFrame S C D}
    (hk : h.frames[k]? = some frame) : frame.bytes ≤ h.bytes := by
  obtain ⟨identity, -, heq⟩ := hb.bytes
  have := le_total HistoryFrame.bytes hk
  omega

theorem Booked.total_le (hb : Booked limits h) : total HistoryFrame.bytes h.frames ≤ h.bytes := by
  obtain ⟨identity, -, heq⟩ := hb.bytes
  omega

/-- There is a last tick. -/
theorem Booked.last (hb : Booked limits h) :
    ∃ current frame, lastTick h.frames = some current ∧ h.frames[current]? = some frame := by
  obtain ⟨k, hk⟩ := hb.held
  cases hlast : lastTick h.frames with
  | none =>
    rw [lastTick, List.getLast?_eq_none_iff] at hlast
    have := ExtTreeMap.mem_keys.mpr hk
    rw [hlast] at this
    cases this
  | some current =>
    obtain ⟨frame, hframe⟩ := mem_iff_lookup.mp (lastTick_eq_some.mp hlast).1
    exact ⟨current, frame, rfl, hframe⟩

namespace PredictionManager
variable {m : PredictionManager S C D} {model : PredictionModel W S C D}

/-! ### What the calls on a group do to its books -/

variable {target tick bytes predicted finalizedThrough : ℕ} {input : ReplayInput C}
  {dependencies : DependencyFrame D} {decoded : DecodedPrediction S D} {frame : HistoryFrame S C D}
  {proof : PublishedProof W} {binding : PredictionBinding}

theorem Appended.booked
    (ha : Appended m model h target input dependencies h') (hb : Booked m.limits h) :
    Booked m.limits h' ∧ h'.identity = h.identity ∧ m.bytes + h'.bytes ≤ m.limits.historyBytes +
      h.bytes := by
  obtain ⟨current, before, state, events, bytes, sequence, hcurrent, hbefore, rfl, -,
      hbytes, hreserve,
    hpopped⟩ := ha
  have hnone : h.frames[current + 1]? = none := by
    refine Option.eq_none_iff_forall_ne_some.mpr fun frame hframe => ?_
    have := (lastTick_eq_some.mp hcurrent).2 _ (mem_iff_lookup.mpr ⟨frame, hframe⟩)
    omega
  have hidentity : h'.identity = h.identity := by rw [hpopped.rest]
  have hmove := hpopped.bytes
  dsimp only at hmove
  rw [total_insert, erase_of_none hnone] at hmove
  dsimp only at hmove
  have hle := hpopped.le
  dsimp only at hle
  refine ⟨hb.change hidentity (fun k frame hframe => ?_) (by omega) ?_ ?_, hidentity, by omega⟩
  · have hlookup := hpopped.lookup hframe
    dsimp only at hlookup
    rw [lookup_insert] at hlookup
    split_ifs at hlookup
    · cases hlookup
      exact hbytes
    · exact hb.charged k frame hlookup
  · -- the frames that are dropped leave at least one
    have hpos : 0 < h'.frames.size := by
      rcases hpopped.kept with hsame | ⟨k, hcond⟩
      · rw [hsame]
        dsimp only
        rw [ExtTreeMap.size_insert]
        split_ifs with hin
        · rw [contains_eq_isSome, hnone] at hin
          cases hin
        · omega
      · have := of_decide_eq_true hcond
        omega
    cases hfirst : firstTick h'.frames with
    | none =>
      rw [firstTick_eq_none] at hfirst
      simp [hfirst] at hpos
    | some first => exact ⟨first, (firstTick_eq_some.mp hfirst).1⟩
  · cases hfirst : firstTick h'.frames with
    | none =>
      rw [firstTick_eq_none] at hfirst
      simp [hfirst]
    | some first => simpa using hpopped.stop first hfirst

theorem Sampled.booked (hs : Sampled m h tick dependencies h') (hb : Booked m.limits h) :
    Booked m.limits h' ∧ h'.identity = h.identity ∧ m.bytes + h'.bytes ≤ m.limits.historyBytes +
      h.bytes := by
  obtain ⟨old, sample, size, hold, hsample, hreserve, hsize, hle, rfl⟩ := hs
  obtain ⟨sample', hsample', hnew⟩ := framePartsBytes_ok hsize
  obtain ⟨oldSample, -, hcharge⟩ := framePartsBytes_ok (hb.charged tick old hold)
  rw [hsample] at hsample'
  cases hsample'
  refine ⟨hb.change rfl (fun k frame hframe => ?_) ?_ ?_ ?_, rfl, ?_⟩
  · dsimp only at hframe
    rw [lookup_insert] at hframe
    split_ifs at hframe
    · cases hframe
      exact hsize
    · exact hb.charged k frame hframe
  · have := total_replace HistoryFrame.bytes hold { old with dependencies, bytes := size }
    dsimp only at this ⊢
    omega
  · exact ⟨tick, ExtTreeMap.mem_insert_self⟩
  · refine (size_le_of_mem fun k hk => ?_).trans hb.size
    exact (mem_insert_self_iff (mem_iff_lookup.mpr ⟨old, hold⟩) k).mp hk
  · dsimp only
    omega

/-- A checkpoint's frame costs no more than what was reserved for it. -/
theorem checkpoint_le
    (hbytes : framePartsBytes decoded.state (none : Option (ReplayInput C)) decoded.dependencies ∅ =
      .ok bytes)
    (hstate : Payload.retainedBytes decoded.state ≤ m.limits.checkpointBytes)
    (hdependencies : ∃ sample, dependencyBytes S C D decoded.dependencies = .ok sample ∧
      sample ≤ m.limits.dependencyBytes) (hcharged : frame.Charged) :
    bytes ≤ frame.bytes + (m.limits.checkpointBytes + m.limits.dependencyBytes) := by
  obtain ⟨sample, hsample, hle⟩ := hdependencies
  obtain ⟨sample', hsample', heq⟩ := framePartsBytes_ok hbytes
  obtain ⟨old, -, hold⟩ := framePartsBytes_ok hcharged
  rw [hsample] at hsample'
  cases hsample'
  have hinput : inputRetained (none : Option (ReplayInput C)) = 0 := rfl
  rw [Finset.card_empty, Nat.zero_mul, hinput] at heq
  omega

theorem Agreed.booked (hag : Agreed h proof frame decoded h')
    (ha : Admitted m model h proof binding frame predicted decoded) (hclean : h.dirtyFrom = none)
    (hb : Booked m.limits h) :
    Booked m.limits h' ∧ h'.identity = h.identity ∧ m.bytes + h'.bytes ≤ m.limits.historyBytes +
      h.bytes := by
  have hr := hag.rebased hclean
  obtain ⟨bytes', hbytes', hlookup⟩ := hag.lookup
  obtain ⟨bytes, popped, hbytes, hle, hpopped, heq⟩ := hag
  have hidentity : h'.identity = h.identity := by rw [heq, hpopped.rest]
  have hreplace := total_replace HistoryFrame.bytes ha.found (checkpointFrame decoded bytes)
  have hcheck : (checkpointFrame decoded bytes : HistoryFrame S C D).bytes = bytes := rfl
  have hmove := hpopped.bytes
  have hless := hpopped.le
  dsimp only at hmove hless
  have hcost := checkpoint_le hbytes ha.state ha.dependencies (hb.charged _ _ ha.found)
  have hreserve := ha.reserve
  have hmem := hr.mem (mem_iff_lookup.mpr ⟨frame, ha.found⟩)
  refine ⟨hb.change hidentity (fun k found hfound => ?_) ?_ ?_ ?_, hidentity, ?_⟩
  · rw [hlookup] at hfound
    split_ifs at hfound
    · cases hfound
      exact hbytes'
    · exact hb.charged k found hfound
  · rw [heq]
    dsimp only
    omega
  · exact ⟨proof.endTick, (hmem _).mpr ⟨le_rfl, mem_iff_lookup.mpr ⟨frame, ha.found⟩⟩⟩
  · exact (size_le_of_mem fun k hk => ((hmem k).mp hk).2).trans hb.size
  · rw [heq]
    dsimp only
    omega

/-- The excess of the frames of a replay: a frame each, and the samples of the checkpoint. -/
def replayExcess (m : PredictionManager S C D) (perFrame i : ℕ) : ℕ :=
  if i = 0 then perFrame + m.limits.dependencyBytes else perFrame

omit [Payload S] [Payload C] [Payload D] [PredictionLayout S C D] in
theorem sum_replayExcess (perFrame ticks : ℕ) :
    ∑ i ∈ Finset.range (ticks + 1), m.replayExcess perFrame i =
      (ticks + 1) * perFrame + m.limits.dependencyBytes := by
  have hfirst : m.replayExcess perFrame 0 = perFrame + m.limits.dependencyBytes := if_pos rfl
  have hlater : ∀ i, m.replayExcess perFrame (i + 1) = perFrame :=
    fun i => if_neg (Nat.succ_ne_zero i)
  rw [Finset.sum_range_succ', hfirst]
  simp only [hlater, Finset.sum_const, Finset.card_range, smul_eq_mul]
  rw [Nat.succ_mul, Nat.add_assoc]

theorem Replayed.booked {perFrame : ℕ}
    (hr : Replayed m model h proof predicted decoded h')
    (ha : Admitted m model h proof binding frame predicted decoded)
    (hper : m.limits.checkpointBytes +
      m.limits.eventsPerTick * (entryOverhead + PredictionLayout.actionKey S C D) ≤ perFrame)
    (hreserve : m.bytes + ((predicted - proof.endTick + 1) * perFrame + m.limits.dependencyBytes) ≤
      m.limits.historyBytes) (hb : Booked m.limits h) :
    Booked m.limits h' ∧ h'.identity = h.identity ∧ m.bytes + h'.bytes ≤ m.limits.historyBytes +
      h.bytes := by
  have hmem := hr.rebased.mem (mem_iff_lookup.mpr ⟨frame, ha.found⟩)
  obtain ⟨bytes', staged', hbytes', -, hstepped', hcheckpoint, hfirst, hreplayed,
      hapart⟩ := hr.lookup
  obtain ⟨bytes, staged, found, published, popped, hbytes, hlength, hstepped, hpublished,
      hframe, hpopped,
    heq⟩ := hr
  have hidentity : h'.identity = h.identity := by
    rw [heq, hpopped.rest]
    dsimp only
    rw [hpublished.rest]
  have hreplace :=
    total_replace HistoryFrame.bytes hframe { found with dependencies := decoded.dependencies }
  have hmove := hpopped.bytes
  have hless := hpopped.le
  have hpub := hpublished.bytes
  dsimp only at hmove hless hreplace
  -- no frame grows by more than what was reserved for it
  have hgrowth := hpublished.growth (m.replayExcess perFrame) (by
    intro i s old hi hold
    cases i with
    | zero =>
      cases hi
      have := checkpoint_le hbytes ha.state ha.dependencies (hb.charged _ _ hold)
      rw [replayExcess, if_pos rfl]
      dsimp only
      omega
    | succ i =>
      rw [← Nat.add_assoc, Nat.add_right_comm] at hold
      obtain ⟨old', hold', hcharge, hstate, hevents⟩ := hstepped.charged i s hi
      rw [hold, Option.some.injEq] at hold'
      subst hold'
      obtain ⟨sample, hsample, hnew⟩ := framePartsBytes_ok hcharge
      obtain ⟨sample', hsample', holder⟩ := framePartsBytes_ok (hb.charged _ _ hold)
      rw [hsample] at hsample'
      cases hsample'
      have hcard : s.events.card * (entryOverhead + PredictionLayout.actionKey S C D) ≤
          m.limits.eventsPerTick * (entryOverhead + PredictionLayout.actionKey S C D) :=
        Nat.mul_le_mul_right _ hevents
      rw [replayExcess, if_neg (Nat.succ_ne_zero i)]
      omega)
  rw [List.length_cons, sum_replayExcess, hlength] at hgrowth
  refine ⟨hb.change hidentity (fun k after hafter => ?_) ?_ ?_ ?_, hidentity, ?_⟩
  · rcases Nat.lt_trichotomy k proof.endTick with hlt | rfl | hgt
    · rw [hfirst k hlt] at hafter
      cases hafter
    · rw [hcheckpoint] at hafter
      cases hafter
      exact hbytes'
    · by_cases hle : proof.endTick + 1 + staged'.length ≤ k
      · rw [hapart k hle] at hafter
        exact hb.charged k after hafter
      · obtain ⟨i, rfl⟩ := Nat.exists_eq_add_of_le (Nat.succ_le_of_lt hgt)
        have hi : staged'[i]? = some staged'[i] := List.getElem?_eq_getElem (by omega)
        obtain ⟨old, hold, hafter'⟩ := hreplayed i _ hi
        obtain ⟨old', hold', hcharge, -, -⟩ := hstepped'.charged i _ hi
        rw [hold, Option.some.injEq] at hold'
        subst hold'
        rw [hafter', Option.some.injEq] at hafter
        subst hafter
        exact hcharge
  · rw [heq]
    dsimp only
    omega
  · exact ⟨proof.endTick, (hmem _).mpr ⟨le_rfl, mem_iff_lookup.mpr ⟨frame, ha.found⟩⟩⟩
  · exact (size_le_of_mem fun k hk => ((hmem k).mp hk).2).trans hb.size
  · rw [heq]
    dsimp only
    omega

/-- **A call keeps the books of the group it touches**, within what the manager has left. -/
theorem Touched.booked [BEq S] [BEq D] (ht : Touched m model h h') (hb : Booked m.limits h)
    (hlimit : m.bytes ≤ m.limits.historyBytes) :
    Booked m.limits h' ∧ h'.identity = h.identity ∧ m.bytes + h'.bytes ≤ m.limits.historyBytes +
      h.bytes := by
  cases ht with
  | recovered reason =>
    exact ⟨⟨hb.charged, hb.bytes, hb.held, hb.size⟩, rfl, Nat.add_le_add_right hlimit _⟩
  | appended _ target input dependencies ha => exact ha.booked hb
  | sampled _ tick dependencies hs => exact hs.booked hb
  | agreed _ proof binding frame predicted decoded ha hstate hdependencies hclean hagreed =>
    exact hagreed.booked ha hclean hb
  | replayed _ proof binding frame predicted perFrame decoded ha hper hreserve hreplayed =>
    exact hreplayed.booked ha hper hreserve hb

/-! ### Nothing fails in a group with its books in order -/

omit [Payload S] [Payload C] in
theorem checkPredictBudget_ne_panic {members : ℕ} :
    m.checkPredictBudget members dependencies bytes ≠ .error .panic := by
  unfold checkPredictBudget
  repeat' split
  all_goals exact nofun

theorem admitInput_ne_panic [BEq C] (hb : Booked m.limits h) :
    m.admitInput h target input dependencies model ≠ .error .panic := by
  obtain ⟨current, frame, hlast, hframe⟩ := hb.last
  unfold admitInput
  split
  · exact nofun
  split
  · exact nofun
  split
  · exact nofun
  split
  · split <;> exact nofun
  split
  · rename_i hnone
    rw [hlast, Option.bind_some, hframe] at hnone
    cases hnone
  split
  · exact nofun
  split
  · exact nofun
  split
  · exact nofun
  split
  · exact nofun
  · exact map_ne_error checkPredictBudget_ne_panic

theorem predictGroup_ne_panic [BEq C] (hb : Booked m.limits h) :
    (m.predictGroup h target input dependencies model).2 ≠ .error .panic := by
  unfold predictGroup
  split
  · rename_i halt hadmitted
    intro hpanic
    cases hpanic
    exact admitInput_ne_panic hb hadmitted
  · rintro ⟨⟩
  · unfold advance
    dsimp only
    split
    · rintro ⟨⟩
    split
    · rintro ⟨⟩
    split
    · rintro ⟨⟩
    split
    · rintro ⟨⟩
    · refine map_ne_error (GroupHistory.popWhile_ne_error ?_ _)
      dsimp only
      rw [total_insert]
      -- the entry that was there, if any, only lowers the total
      have hle : total HistoryFrame.bytes (h.frames.erase target) ≤
          total HistoryFrame.bytes h.frames := by
        cases hold : h.frames[target]? with
        | none => rw [erase_of_none hold]
        | some old =>
          rw [total_erase HistoryFrame.bytes hold]
          exact Nat.le_add_left _ _
      have := hb.total_le
      dsimp only
      omega

theorem updateGroup_ne_panic [BEq D] (hb : Booked m.limits h) :
    m.updateGroup h tick dependencies ≠ .error .panic := by
  unfold updateGroup
  split
  · exact nofun
  split
  · exact nofun
  split
  · exact nofun
  rename_i old hold
  split
  · exact nofun
  split
  · exact nofun
  split
  · exact nofun
  split
  · exact nofun
  split
  · rename_i hnone
    exact absurd (hb.frame_le hold) (Nat.not_le.mpr (checkedSub_eq_none.mp hnone))
  · exact nofun

theorem admitProof_ne_panic (hb : Booked m.limits h) :
    m.admitProof h proof binding finalizedThrough model ≠ .error .panic := by
  obtain ⟨current, frame, hlast, -⟩ := hb.last
  unfold admitProof
  dsimp only
  split
  · exact nofun
  split
  · exact nofun
  split
  · exact nofun
  split
  · exact nofun
  split
  · rename_i hnone
    rw [hlast] at hnone
    cases hnone
  repeat' split
  all_goals exact nofun

theorem acceptEqual_ne_panic (hb : Booked limits h)
    (hfound : h.frames[proof.endTick]? = some frame) :
    acceptEqual h frame proof decoded ≠ .error .panic := by
  unfold acceptEqual
  split
  · exact nofun
  rename_i bytes hbytes
  split
  · rename_i hnone
    exact absurd (hb.frame_le hfound) (Nat.not_le.mpr (checkedSub_eq_none.mp hnone))
  · rename_i rest hrest
    obtain ⟨hle, rfl⟩ := checkedSub_eq_some.mp hrest
    refine map_ne_error (GroupHistory.popWhile_ne_error ?_ _)
    have hreplace := total_replace HistoryFrame.bytes hfound (checkpointFrame decoded bytes)
    have hcheck : (checkpointFrame decoded bytes : HistoryFrame S C D).bytes = bytes := rfl
    have := hb.total_le
    dsimp only
    omega

theorem replayFrom_ne_panic {count : ℕ} {previous : S} :
    m.replayFrom h binding model tick previous count ≠ .error .panic := by
  induction count generalizing tick previous with
  | zero => rintro ⟨⟩
  | succ count ih =>
    unfold replayFrom
    split
    · rintro ⟨⟩
    split
    · rintro ⟨⟩
    split
    · rintro ⟨⟩
    split
    · rintro ⟨⟩
    split
    · rintro ⟨⟩
    split
    · rintro ⟨⟩
    · exact map_ne_error ih

omit [Payload S] [Payload C] [Payload D] [PredictionLayout S C D] in
/-- Frames that are there can be published. -/
theorem publish_ne_error {checkpoint : ℕ} {staged : List (Staged S)} {h : GroupHistory S C D}
    (htotal : total HistoryFrame.bytes h.frames ≤ h.bytes)
    (hthere : ∀ s ∈ staged, s.tick ∈ h.frames) (halt : Halt) :
    loop (publishFrame checkpoint) h staged ≠ .error halt := by
  induction staged generalizing h with
  | nil => exact nofun
  | cons s staged ih =>
    obtain ⟨frame, hframe⟩ := mem_iff_lookup.mp (hthere s List.mem_cons_self)
    have hle := le_total HistoryFrame.bytes hframe
    have hsub : checkedSub h.bytes frame.bytes = some (h.bytes - frame.bytes) :=
      checkedSub_eq_some.mpr ⟨by omega, rfl⟩
    refine bind_ne_error ?_ fun h₁ hfirst => ?_
    · unfold publishFrame
      rw [hframe]
      dsimp only
      rw [hsub]
      exact nofun
    · obtain ⟨frame', hframe', -, rfl⟩ := publishFrame_ok hfirst
      rw [hframe, Option.some.injEq] at hframe'
      subst hframe'
      refine ih ?_ fun s' hs' => ?_
      · have hreplace := total_replace HistoryFrame.bytes hframe (s.onto checkpoint frame)
        have hbytes : (s.onto checkpoint frame).bytes = s.bytes := rfl
        dsimp only
        omega
      · dsimp only
        rw [mem_insert_self_iff (mem_iff_lookup.mpr ⟨frame, hframe⟩)]
        exact hthere s' (List.mem_cons_of_mem _ hs')

theorem replay_ne_panic (hb : Booked m.limits h) (hfound : proof.endTick ∈ h.frames) :
    m.replay h proof binding predicted decoded model ≠ .error .panic := by
  unfold replay
  split
  · exact nofun
  rename_i bytes hbytes
  refine bind_ne_error replayFrom_ne_panic fun staged hstaged => ?_
  obtain ⟨-, hstepped⟩ := replayFrom_ok hstaged
  have hthere : ∀ s ∈ (⟨proof.endTick, decoded.state, ∅, bytes⟩ : Staged S) :: staged,
      s.tick ∈ h.frames := by
    intro s hs
    rcases List.mem_cons.mp hs with rfl | hs
    · exact hfound
    · obtain ⟨i, hi⟩ := List.mem_iff_getElem?.mp hs
      obtain ⟨_, frame, _, -, hframe, -⟩ := hstepped.stepped i s hi
      rw [hstepped.ticks i s hi]
      exact mem_iff_lookup.mpr ⟨frame, hframe⟩
  unfold publish
  refine bind_ne_error (publish_ne_error hb.total_le hthere _) fun published hloop => ?_
  have hpublished := loop_published hstepped.staged_ticks hloop
  obtain ⟨old, -, hframe⟩ := hpublished.frame 0 _ rfl
  rw [Nat.add_zero] at hframe
  rw [hframe]
  refine map_ne_error (GroupHistory.popWhile_ne_error ?_ _)
  have hreplace := total_replace HistoryFrame.bytes hframe
    { Staged.onto proof.endTick ⟨proof.endTick, decoded.state, ∅, bytes⟩ old with
      dependencies := decoded.dependencies }
  have hpub := hpublished.bytes
  have := hb.total_le
  dsimp only at hreplace ⊢
  omega

theorem reconcileGroup_ne_panic [BEq S] [BEq D] (hb : Booked m.limits h) :
    (m.reconcileGroup h proof binding finalizedThrough model).2 ≠ .error .panic := by
  unfold reconcileGroup
  split
  · rename_i halt hadmitted
    intro hpanic
    cases hpanic
    exact admitProof_ne_panic hb hadmitted
  · exact nofun
  · rename_i frame predicted decoded hadmitted
    have ha := admitProof_ok hadmitted
    split
    · split
      · rename_i halt hbudget
        intro hpanic
        cases hpanic
        unfold checkReplayBudget at hbudget
        repeat' split at hbudget
        all_goals cases hbudget
      · exact replay_ne_panic hb (mem_iff_lookup.mpr ⟨frame, ha.found⟩)
    · exact acceptEqual_ne_panic hb ha.found

end PredictionManager
end Net.Prediction
