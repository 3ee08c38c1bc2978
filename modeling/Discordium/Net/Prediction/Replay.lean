import Discordium.Net.Prediction.Calls
import Discordium.Net.Replication.Groups.Proofs

/-!
# Net — Prediction — Replay

The frames of a predicted group are what the model computes.  `Coherent` is kept by every call: the
ticks are consecutive, and every frame before the first replaced sample is the model's step of the
frame before it, with the input and the samples recorded there.  A reconciliation that is not stale
puts the decoded checkpoint in its place, keeps every later input, and leaves the fold of those
inputs from the checkpoint on.
-/

namespace Net.Prediction
open Lib
open Std (ExtTreeMap)

variable {W S C D : Type}

/-! ### Where proofs come from -/

/-- What the assembler publishes is a proof for a predictor, with the states the client has. -/
theorem exists_publishedProof {P : Type} [DecidableEq P] [Payload P] [StateLayout P]
    {connection connection' : ℕ} {limits : GroupLimits} {scopeLimits : ScopeLimits}
    {start : GroupAssembler P} {client : ClientScopes P}
    (hnew : GroupAssembler.new connection limits = .ok start)
    (hclient : ClientScopes.new connection' scopeLimits = .ok client)
    (actions : List (Station.Action P)) {g : ℕ} {published : GroupAssembler.PublishedGroup}
    (hproof : GroupAssembler.publishedGroup (run Station.step ⟨start, client⟩ actions).assembler g
      (run Station.step ⟨start, client⟩ actions).client = some published) :
    ∃ proof : PublishedProof P, proof.publication = published.publication ∧
      proof.endTick = published.endTick ∧ proof.manifest = published.manifest ∧
      published.states (run Station.step ⟨start, client⟩ actions).client = some proof.states := by
  obtain ⟨hordered, states, hstates, -⟩ := (backed_run hnew hclient actions).whole hproof
  exact ⟨⟨published.publication, published.endTick, published.manifest, states, hordered.sorted,
    hordered.indices⟩, rfl, rfl, rfl, hstates⟩

/-! ### Frames that follow each other -/

/-- The frame is the model's step of the one before it, with what it recorded. -/
def Follows (model : PredictionModel W S C D) (tick : ℕ)
    (previous frame : HistoryFrame S C D) : Prop :=
  ∃ input, frame.input = some input ∧
    stepInput model previous.state tick input frame.dependencies = .ok (frame.state, frame.events)

/-- The ticks are consecutive, and the frames before the first replaced sample follow each other. -/
structure Coherent (model : PredictionModel W S C D) (h : GroupHistory S C D) : Prop where
  contiguous : Contiguous h.frames
  follows : ∀ (tick : ℕ) (previous frame : HistoryFrame S C D), h.frames[tick]? = some previous →
    h.frames[tick + 1]? = some frame → (∀ d ∈ h.dirtyFrom, tick + 1 < d) →
      Follows model (tick + 1) previous frame

namespace GroupHistory
variable {cond : ℕ → ℕ → Bool} {h h' : GroupHistory S C D}

theorem Popped.lookup (hp : Popped cond h h') {k : ℕ} {frame : HistoryFrame S C D}
    (hk : h'.frames[k]? = some frame) : h.frames[k]? = some frame := by
  obtain ⟨⟨n, hcut, -⟩, -⟩ := hp
  rw [hcut k] at hk
  split_ifs at hk
  exact hk

theorem Popped.dirtyFrom (hp : Popped cond h h') : h'.dirtyFrom = h.dirtyFrom := by
  rw [hp.rest]

/-- What is left after the frames before a tick are dropped. -/
theorem Popped.from_tick {tick : ℕ} (hp : Popped (fun first _ => first < tick) h h')
    (htick : tick ∈ h.frames) (k : ℕ) : h'.frames[k]? = if k < tick then none
      else h.frames[k]? := by
  obtain ⟨⟨n, hcut, hwhile⟩, hstop, -⟩ := hp
  -- nothing from the tick on is dropped, and the first frame left is not before it
  have hn : n ≤ tick := by
    by_contra hlt
    obtain ⟨size, hcond⟩ := hwhile tick (by omega) htick
    simp at hcond
  have htick' : tick ∈ h'.frames := hcut.mem.mpr ⟨hn, htick⟩
  rw [hcut k]
  split_ifs with hk hkt hkt
  · rfl
  · omega
  · cases hfirst : firstTick h'.frames with
    | none =>
      rw [firstTick_eq_none] at hfirst
      simp [hfirst] at htick'
    | some first =>
      have hle := hstop first hfirst
      simp only [decide_eq_false_iff_not, not_lt] at hle
      refine Option.eq_none_iff_forall_ne_some.mpr fun frame hframe => ?_
      have hmem : k ∈ h'.frames := hcut.mem.mpr ⟨by omega, mem_iff_lookup.mpr ⟨frame, hframe⟩⟩
      have := (firstTick_eq_some.mp hfirst).2 k hmem
      omega
  · rfl

end GroupHistory

section keeps
variable {model : PredictionModel W S C D} {h h' : GroupHistory S C D}

/-- A history that lost its first frames, among those that follow each other. -/
theorem Coherent.popped {cond : ℕ → ℕ → Bool} (hc : Coherent model h)
    (hp : GroupHistory.Popped cond h h') : Coherent model h' where
  contiguous := by
    obtain ⟨⟨n, hcut, -⟩, -⟩ := hp
    exact hc.contiguous.cut hcut
  follows tick previous frame hprevious hframe hdirty :=
    hc.follows tick previous frame (hp.lookup hprevious) (hp.lookup hframe) (hp.dirtyFrom ▸ hdirty)

namespace PredictionManager
variable [Payload S] [Payload C] [Payload D] [PredictionLayout S C D] {m : PredictionManager S C D}
  {dependencies : DependencyFrame D} {proof : PublishedProof W} {decoded : DecodedPrediction S D}
  {frame : HistoryFrame S C D} {predicted : ℕ}

theorem Appended.coherent {target : ℕ} {input : ReplayInput C}
    (ha : Appended m model h target input dependencies h') (hc : Coherent model h) :
    Coherent model h' := by
  obtain ⟨current, before, state, events, bytes, sequence, hcurrent, hbefore, rfl, hstep, -, -,
      hpopped⟩ := ha
  refine Coherent.popped ⟨hc.contiguous.insert_next hcurrent _, ?_⟩ hpopped
  intro tick previous frame hprevious hframe hdirty
  dsimp only at hprevious hframe hdirty
  rw [lookup_insert] at hprevious hframe
  -- nothing is past the new tick
  have hlast : ∀ k frame, h.frames[k]? = some frame → k ≤ current := fun k frame hk =>
    (lastTick_eq_some.mp hcurrent).2 k (mem_iff_lookup.mpr ⟨frame, hk⟩)
  split_ifs at hframe with hnext
  · cases hframe
    obtain rfl : current = tick := by omega
    rw [if_neg (by omega), hbefore, Option.some.injEq] at hprevious
    exact ⟨input, rfl, hprevious ▸ hstep⟩
  · have := hlast _ _ hframe
    rw [if_neg (by omega)] at hprevious
    exact hc.follows tick previous frame hprevious hframe hdirty

theorem Sampled.coherent {tick : ℕ}
    (hs : Sampled m h tick dependencies h') (hc : Coherent model h) : Coherent model h' := by
  obtain ⟨old, dependencyBytes', size, hold, -, -, -, -, rfl⟩ := hs
  refine ⟨hc.contiguous.congr fun k => mem_insert_self_iff (mem_iff_lookup.mpr ⟨old, hold⟩) k, ?_⟩
  intro k previous frame hprevious hframe hdirty
  dsimp only at hprevious hframe hdirty
  -- both frames are before the sample
  have hlt : k + 1 < tick ∧ ∀ d ∈ h.dirtyFrom, k + 1 < d := by
    have hmin := hdirty _ rfl
    cases hd : h.dirtyFrom with
    | none =>
      rw [hd] at hmin
      exact ⟨hmin, nofun⟩
    | some d =>
      rw [hd] at hmin
      have hmin : k + 1 < min d tick := hmin
      exact ⟨by omega, fun d' hd' => by cases hd'; omega⟩
  rw [lookup_insert, if_neg (by omega)] at hprevious hframe
  exact hc.follows k previous frame hprevious hframe hlt.2

/-! ### Checkpoints -/

/-- What a frame recorded of its transition. -/
def transition (frame : HistoryFrame S C D) : Option (ReplayInput C) × DependencyFrame D :=
  (frame.input, frame.dependencies)

/-- The decoded checkpoint is the first frame, and every later tick keeps what it recorded. -/
structure Rebased (proof : PublishedProof W) (decoded : DecodedPrediction S D)
    (h h' : GroupHistory S C D) : Prop where
  checkpoint : ∃ bytes, h'.frames[proof.endTick]? = some (checkpointFrame decoded bytes)
  first : ∀ k < proof.endTick, h'.frames[k]? = none
  later : ∀ k, proof.endTick < k → (h'.frames[k]?).map transition = (h.frames[k]?).map transition
  clean : h'.dirtyFrom = none

omit [Payload S] [Payload C] [Payload D] [PredictionLayout S C D] in
/-- The ticks from the checkpoint on are there as before. -/
theorem Rebased.mem (hr : Rebased proof decoded h h') (hfound : proof.endTick ∈ h.frames) (k : ℕ) :
    k ∈ h'.frames ↔ proof.endTick ≤ k ∧ k ∈ h.frames := by
  rcases Nat.lt_trichotomy k proof.endTick with hlt | rfl | hgt
  · rw [mem_iff_lookup, hr.first k hlt]
    simp [Nat.not_le.mpr hlt]
  · obtain ⟨bytes, hframe⟩ := hr.checkpoint
    simp [mem_iff_lookup.mpr ⟨_, hframe⟩, hfound]
  · have hiff := congrArg Option.isSome (hr.later k hgt)
    rw [Option.isSome_map, Option.isSome_map] at hiff
    rw [ExtTreeMap.mem_iff_isSome_getElem?, ExtTreeMap.mem_iff_isSome_getElem?, hiff]
    simp [hgt.le]

omit [Payload S] [Payload C] [Payload D] [PredictionLayout S C D] in
theorem Rebased.contiguous (hr : Rebased proof decoded h h') (hfound : proof.endTick ∈ h.frames)
    (hc : Contiguous h.frames) : Contiguous h'.frames := by
  intro a b k ha hb hak hkb
  rw [hr.mem hfound] at ha hb ⊢
  exact ⟨ha.1.trans hak, hc a b k ha.2 hb.2 hak hkb⟩

section
variable (ha : Agreed h proof frame decoded h')
include ha

theorem Agreed.lookup :
    ∃ bytes,
      framePartsBytes decoded.state (none : Option (ReplayInput C)) decoded.dependencies ∅ =
        .ok bytes ∧
      ∀ k, h'.frames[k]? = if k < proof.endTick then none
        else if proof.endTick = k then some (checkpointFrame decoded bytes) else h.frames[k]? := by
  obtain ⟨bytes, popped, hbytes, -, hpopped, rfl⟩ := ha
  refine ⟨bytes, hbytes, fun k => ?_⟩
  rw [hpopped.from_tick ExtTreeMap.mem_insert_self k]
  exact congrArg _ (lookup_insert ..)

theorem Agreed.dirtyFrom : h'.dirtyFrom = h.dirtyFrom := by
  obtain ⟨bytes, popped, -, -, hpopped, rfl⟩ := ha
  exact hpopped.dirtyFrom

theorem Agreed.rebased (hclean : h.dirtyFrom = none) : Rebased proof decoded h h' := by
  obtain ⟨bytes, -, hlookup⟩ := ha.lookup
  refine ⟨⟨bytes, ?_⟩, fun k hk => ?_, fun k hk => ?_, ha.dirtyFrom.trans hclean⟩
  · rw [hlookup, if_neg (lt_irrefl _), if_pos rfl]
  · rw [hlookup, if_pos hk]
  · rw [hlookup, if_neg hk.asymm, if_neg hk.ne]

/-- The checkpoint has the state of the frame it replaces, so the frame after it still follows. -/
theorem Agreed.coherent
    (hfound : h.frames[proof.endTick]? = some frame) (hstate : decoded.state = frame.state)
    (hclean : h.dirtyFrom = none) (hc : Coherent model h) : Coherent model h' := by
  have hr := ha.rebased hclean
  refine ⟨hr.contiguous (mem_iff_lookup.mpr ⟨frame, hfound⟩) hc.contiguous, ?_⟩
  obtain ⟨bytes, -, hlookup⟩ := ha.lookup
  intro tick previous next hprevious hnext _
  have hdirty : ∀ d ∈ h.dirtyFrom, tick + 1 < d := by simp [hclean]
  rw [hlookup] at hprevious hnext
  split_ifs at hprevious with hlt heq
  · cases hprevious
    subst heq
    rw [if_neg (by omega), if_neg (by omega)] at hnext
    obtain ⟨input, hinput, hstep⟩ := hc.follows _ _ _ hfound hnext hdirty
    rw [← hstate] at hstep
    exact ⟨input, hinput, hstep⟩
  · rw [if_neg (by omega), if_neg (by omega)] at hnext
    exact hc.follows _ _ _ hprevious hnext hdirty

end

section
variable (hr : Replayed m model h proof predicted decoded h')
include hr

/-- The frames after a replay: the checkpoint, the replayed ticks, and no tick before it. -/
theorem Replayed.lookup :
    ∃ (bytes : ℕ) (staged : List (Staged S)),
      framePartsBytes decoded.state (none : Option (ReplayInput C)) decoded.dependencies ∅ =
        .ok bytes ∧
      staged.length = predicted - proof.endTick ∧
      Restepped m model h (proof.endTick + 1) decoded.state staged ∧
      h'.frames[proof.endTick]? = some (checkpointFrame decoded bytes) ∧
      (∀ k < proof.endTick, h'.frames[k]? = none) ∧
      (∀ i s, staged[i]? = some s → ∃ frame, h.frames[proof.endTick + 1 + i]? = some frame ∧
        h'.frames[proof.endTick + 1 + i]? =
          some { frame with state := s.state, events := s.events, bytes := s.bytes }) ∧
      ∀ k, proof.endTick + 1 + staged.length ≤ k → h'.frames[k]? = h.frames[k]? := by
  obtain ⟨bytes, staged, frame, published, popped, hbytes, hlength, hstepped, hpublished,
      hframe, hpopped,
    rfl⟩ := hr
  refine ⟨bytes, staged, hbytes, hlength, hstepped, ?_⟩
  have hlookup : ∀ k, popped.frames[k]? = if k < proof.endTick then none
      else if proof.endTick = k then some { frame with dependencies := decoded.dependencies }
      else published.frames[k]? := by
    intro k
    rw [hpopped.from_tick ExtTreeMap.mem_insert_self k]
    exact congrArg _ (lookup_insert ..)
  obtain ⟨old, hold, hafter⟩ := hpublished.frame 0 _ rfl
  rw [Nat.add_zero, hframe, Option.some.injEq] at hafter
  refine ⟨?_, fun k hk => ?_, fun i s hi => ?_, fun k hk => ?_⟩
  · rw [hlookup, if_neg (lt_irrefl _), if_pos rfl, hafter]
    simp [Staged.onto, checkpointFrame]
  · exact (hlookup k).trans (if_pos hk)
  · obtain ⟨found, hfound, hpub⟩ := hpublished.frame (i + 1) s hi
    rw [← Nat.add_assoc, Nat.add_right_comm] at hfound hpub
    refine ⟨found, hfound, ?_⟩
    rw [hlookup, if_neg (by omega), if_neg (by omega), hpub, Staged.onto, hstepped.ticks i s hi,
      if_neg (by omega)]
  · rw [hlookup, if_neg (by omega), if_neg (by omega)]
    exact hpublished.apart k (.inr (by rw [List.length_cons]; omega))

theorem Replayed.dirtyFrom
    : h'.dirtyFrom = none := by
  obtain ⟨bytes, staged, frame, published, popped, -, -, -, -, -, -, rfl⟩ := hr
  rfl

theorem Replayed.rebased
    : Rebased proof decoded h h' := by
  obtain ⟨bytes, staged, -, -, -, hcheckpoint, hfirst, hreplayed, hapart⟩ := hr.lookup
  refine ⟨⟨bytes, hcheckpoint⟩, hfirst, fun k hk => ?_, hr.dirtyFrom⟩
  by_cases hle : proof.endTick + 1 + staged.length ≤ k
  · rw [hapart k hle]
  · obtain ⟨i, rfl⟩ := Nat.exists_eq_add_of_le (Nat.succ_le_of_lt hk)
    obtain ⟨frame, hbefore, hafter⟩ := hreplayed i _ (List.getElem?_eq_getElem (by omega))
    rw [hbefore, hafter]
    rfl

/-- Every replayed tick follows the one before it. -/
theorem Replayed.coherent (hlast : lastTick h.frames = some predicted)
    (hfound : proof.endTick ∈ h.frames) (hc : Coherent model h) : Coherent model h' := by
  refine ⟨hr.rebased.contiguous hfound hc.contiguous, ?_⟩
  have hmem := hr.rebased.mem hfound
  obtain ⟨bytes, staged, -, hlength, hstepped, hcheckpoint, hfirst, hreplayed, hapart⟩ := hr.lookup
  intro tick previous frame hprevious hframe _
  have htick := ((hmem tick).mp (mem_iff_lookup.mpr ⟨_, hprevious⟩)).1
  have hle := (lastTick_eq_some.mp hlast).2 _
    ((hmem (tick + 1)).mp (mem_iff_lookup.mpr ⟨_, hframe⟩)).2
  obtain ⟨i, rfl⟩ := Nat.exists_eq_add_of_le htick
  have hi : staged[i]? = some staged[i] := List.getElem?_eq_getElem (by omega)
  obtain ⟨before, old, input, hbefore, hold, hinput, hstep⟩ := hstepped.stepped i _ hi
  obtain ⟨old', hold', hafter⟩ := hreplayed i _ hi
  rw [hold, Option.some.injEq] at hold'
  rw [Nat.add_right_comm] at hframe
  rw [hafter, Option.some.injEq] at hframe
  subst hold' hframe
  -- the state it was stepped from is the one of the frame before
  have hstate : previous.state = before := by
    cases i with
    | zero =>
      rw [Nat.add_zero, hcheckpoint, Option.some.injEq] at hprevious
      cases hbefore
      exact hprevious ▸ rfl
    | succ i =>
      have hj : staged[i]? = some staged[i] := List.getElem?_eq_getElem (by omega)
      obtain ⟨old', -, hafter'⟩ := hreplayed i _ hj
      rw [← Nat.add_assoc, Nat.add_right_comm, hafter', Option.some.injEq] at hprevious
      rw [List.getElem?_cons_succ, List.getElem?_map, hj] at hbefore
      cases hbefore
      exact hprevious ▸ rfl
  refine ⟨input, hinput, ?_⟩
  rw [hstate, Nat.add_right_comm]
  exact hstep

end

/-! ### Any call -/

theorem Decoded.coherent {binding : PredictionBinding}
    (hd : Decoded m proof binding h) : Coherent model h := by
  obtain ⟨decoded, bytes, -, -, -, -, heq⟩ := hd.frames
  have honly : ∀ k frame, h.frames[k]? = some frame → k = proof.endTick := by
    intro k frame hk
    rw [heq, lookup_insert] at hk
    split_ifs at hk with heq
    · exact heq.symm
    · simp at hk
  refine ⟨fun a b k ha hb hak hkb => ?_, fun tick previous frame hprevious hframe _ => ?_⟩
  · obtain ⟨_, ha'⟩ := mem_iff_lookup.mp ha
    obtain ⟨_, hb'⟩ := mem_iff_lookup.mp hb
    have := honly _ _ ha'
    have := honly _ _ hb'
    obtain rfl : k = a := by omega
    exact ha
  · have := honly _ _ hprevious
    have := honly _ _ hframe
    omega

theorem Touched.coherent [BEq S] [LawfulBEq S] [BEq D] (ht : Touched m model h h')
    (hc : Coherent model h) : Coherent model h' := by
  cases ht with
  | recovered reason => exact ⟨hc.contiguous, hc.follows⟩
  | appended _ target input dependencies ha => exact ha.coherent hc
  | sampled _ tick dependencies hs => exact hs.coherent hc
  | agreed _ proof binding frame predicted decoded ha hstate hdependencies hclean hagreed =>
    exact hagreed.coherent ha.found (eq_of_beq hstate) hclean hc
  | replayed _ proof binding frame predicted perFrame decoded ha hper hreserve hreplayed =>
    exact hreplayed.coherent ha.last (mem_iff_lookup.mpr ⟨frame, ha.found⟩) hc

/-- One call keeps every group coherent. -/
theorem coherent_call [BEq S] [LawfulBEq S] [BEq C] [BEq D] (c : Call W S C D)
    (hc : ∀ (g : ℕ) (h : GroupHistory S C D), m.groups[g]? = some h → Coherent model h) (g : ℕ)
    (h : GroupHistory S C D) (hg : (m.call model c).1.groups[g]? = some h) : Coherent model h := by
  rcases call_groups c hg with hsame | ⟨before, hbefore, htouched⟩ | ⟨_, _, _, -, -, -, hdecoded⟩
  · exact hc g h hsame
  · exact htouched.coherent (hc g before hbefore)
  · exact hdecoded.coherent

end PredictionManager
end keeps

/-! ### The fold of what was recorded -/

/-- The transitions recorded at consecutive ticks; nothing where a frame or its input is missing. -/
def recorded (h : GroupHistory S C D) (tick : ℕ) :
    ℕ → Option (List (ReplayInput C × DependencyFrame D))
  | 0 => some []
  | count + 1 =>
    (h.frames[tick]?).bind fun frame => frame.input.bind fun input =>
      (recorded h (tick + 1) count).map ((input, frame.dependencies) :: ·)

/-- The fold of transitions from a state on. -/
def playback (model : PredictionModel W S C D) :
    S → ℕ → List (ReplayInput C × DependencyFrame D) → Except PredictionError S
  | state, _, [] => .ok state
  | state, tick, (input, dependencies) :: transitions =>
    (stepInput model state tick input dependencies).bind fun stepped =>
      playback model stepped.1 (tick + 1) transitions

variable {tick count : ℕ}

/-- Histories that recorded the same have the same transitions. -/
theorem recorded_congr {h h' : GroupHistory S C D}
    (hsame : ∀ k, tick ≤ k → (h'.frames[k]?).map PredictionManager.transition =
      (h.frames[k]?).map PredictionManager.transition) :
    recorded h' tick count = recorded h tick count := by
  induction count generalizing tick with
  | zero => rfl
  | succ count ih =>
    have hrest : recorded h' (tick + 1) count = recorded h (tick + 1) count :=
      ih fun k hk => hsame k (by omega)
    have hfirst := hsame tick le_rfl
    unfold recorded
    rw [hrest]
    cases hb : h.frames[tick]? with
    | none =>
      rw [hb, Option.map_none, Option.map_eq_none_iff] at hfirst
      rw [hfirst]
    | some frame =>
      rw [hb, Option.map_some, Option.map_eq_some_iff] at hfirst
      obtain ⟨frame', hframe', heq⟩ := hfirst
      obtain ⟨hinput, hdependencies⟩ := Prod.mk.inj heq
      rw [hframe', Option.bind_some, Option.bind_some, hinput, hdependencies]

/-- **The frames of a clean history are a fold**: from any of them on, the later ones are the
playback of what was recorded. -/
theorem Coherent.playback {model : PredictionModel W S C D} {h : GroupHistory S C D}
    (hc : Coherent model h) (hclean : h.dirtyFrom = none) {first : HistoryFrame S C D}
    (hfirst : h.frames[tick]? = some first) (hlast : tick + count ∈ h.frames) :
    ∃ transitions, recorded h (tick + 1) count = some transitions ∧
      ∀ n ≤ count, ∃ frame, h.frames[tick + n]? = some frame ∧
        playback model first.state (tick + 1) (transitions.take n) = .ok frame.state := by
  induction count generalizing tick first with
  | zero =>
    refine ⟨[], rfl, fun n hn => ⟨first, ?_, ?_⟩⟩
    · rwa [Nat.le_zero.mp hn]
    · rw [List.take_nil]
      rfl
  | succ count ih =>
    obtain ⟨second, hsecond⟩ :=
      mem_iff_lookup.mp (hc.contiguous tick (tick + (count + 1)) (tick + 1)
      (mem_iff_lookup.mpr ⟨first, hfirst⟩) hlast (by omega) (by omega))
    obtain ⟨input, hinput, hstep⟩ := hc.follows tick first second hfirst hsecond (by simp [hclean])
    obtain ⟨transitions, hrecorded, hrest⟩ := ih hsecond (by rwa [Nat.add_assoc, Nat.add_comm 1])
    refine ⟨(input, second.dependencies) :: transitions, ?_, fun n hn => ?_⟩
    · rw [recorded, hsecond, Option.bind_some, hinput, Option.bind_some, hrecorded, Option.map_some]
    · cases n with
      | zero => exact ⟨first, hfirst, rfl⟩
      | succ n =>
        obtain ⟨frame, hframe, hplayback⟩ := hrest n (by omega)
        refine ⟨frame, by rwa [Nat.add_assoc, Nat.add_comm 1] at hframe, ?_⟩
        rw [List.take_succ_cons, Prediction.playback, hstep]
        exact hplayback

namespace PredictionManager
variable [Payload S] [Payload C] [Payload D] [PredictionLayout S C D] {m : PredictionManager S C D}
  {model : PredictionModel W S C D}

/-- A reconciliation that is answered and not stale. -/
theorem reconcile_ok [BEq S] [BEq D] {proof : PublishedProof W} {binding : PredictionBinding}
    {finalizedThrough : ℕ} {correction : Correction}
    (hr : (m.reconcile proof binding finalizedThrough model).2 = .ok correction)
    (hstale : correction ≠ .stale) :
    ∃ before after frame predicted decoded, m.groups[proof.publication.group]? = some before ∧
      (m.reconcile proof binding finalizedThrough model).1.groups[proof.publication.group]? =
        some after ∧
      Admitted m model before proof binding frame predicted decoded ∧
      Rebased proof decoded before after := by
  unfold reconcile at hr ⊢
  split_ifs at hr ⊢
  have hthrough := m.withGroup_through proof.publication.group fun history =>
    m.reconcileGroup history proof binding finalizedThrough model
  generalize m.withGroup proof.publication.group (fun history =>
    m.reconcileGroup history proof binding finalizedThrough model) = result at hthrough hr ⊢
  cases hthrough with
  | unknown | panic => cases hr
  | settled before work result hfound hwork hle =>
    rcases result with (error | reason | _) | ⟨after, value⟩
    · cases hr
    · cases hr
    · cases hr
    · cases hr
      rcases reconcileGroup_ok hwork with ⟨rfl, -⟩ | ⟨frame, predicted, decoded, ha, hcase⟩
      · exact absurd rfl hstale
      · refine ⟨before, after, frame, predicted, decoded, hfound,
          (lookup_insert ..).trans (if_pos rfl), ha, ?_⟩
        rcases hcase with ⟨-, -, -, hclean, hagreed⟩ | ⟨-, -, hreplayed⟩
        · exact hagreed.rebased hclean
        · exact hreplayed.rebased

/-- **Replay correctness.**  In every run of a manager, with a model whose states are compared by
equality: the ticks of each group are consecutive, and each frame before the first replaced sample
(each frame, when none was replaced) is the model's step of the frame before it.  A reconciliation
that is not stale leaves the decoded checkpoint at its tick, every input recorded after it up to the
predicted tick, and the fold of those inputs from the checkpoint. -/
theorem replay_correct [BEq S] [LawfulBEq S] [BEq C] [BEq D] (model : PredictionModel W S C D)
    (connection : ℕ) (limits : PredictionLimits) (start : PredictionManager S C D)
    (hnew : new connection limits = .ok start) (calls : List (Call W S C D)) :
    let m := run (fun m c => (m.call model c).1) start calls
    (∀ (g : ℕ) (h : GroupHistory S C D), m.groups[g]? = some h → Coherent model h) ∧
    ∀ (proof : PublishedProof W) (binding : PredictionBinding) (finalizedThrough : ℕ)
      (correction : Correction),
      (m.reconcile proof binding finalizedThrough model).2 = .ok correction → correction ≠ .stale →
      ∃ before after predicted decoded checkpoint transitions,
        m.groups[proof.publication.group]? = some before ∧
        (m.reconcile proof binding finalizedThrough model).1.groups[proof.publication.group]? =
          some after ∧
        lastTick before.frames = some predicted ∧ lastTick after.frames = some predicted ∧
        proof.endTick ≤ predicted ∧
        model.decodeGroup proof binding = .ok decoded ∧
        after.frames[proof.endTick]? = some checkpoint ∧ checkpoint.state = decoded.state ∧
        checkpoint.dependencies = decoded.dependencies ∧
        recorded before (proof.endTick + 1) (predicted - proof.endTick) = some transitions ∧
        recorded after (proof.endTick + 1) (predicted - proof.endTick) = some transitions ∧
        ∀ n ≤ predicted - proof.endTick, ∃ frame, after.frames[proof.endTick + n]? = some frame ∧
          playback model decoded.state (proof.endTick + 1) (transitions.take n) =
            .ok frame.state := by
  intro m
  have hstart : ∀ (g : ℕ) (h : GroupHistory S C D), start.groups[g]? = some h →
      Coherent model h := by
    unfold new at hnew
    split_ifs at hnew
    cases hnew
    simp
  have hall : ∀ (g : ℕ) (h : GroupHistory S C D), m.groups[g]? = some h → Coherent model h :=
    run_invariant (I := fun m : PredictionManager S C D =>
      ∀ (g : ℕ) (h : GroupHistory S C D), m.groups[g]? = some h → Coherent model h)
      (fun m c hm => coherent_call c hm) hstart calls
  refine ⟨hall, fun proof binding finalizedThrough correction hr hstale => ?_⟩
  obtain ⟨before, after, frame, predicted, decoded, hbefore, hafter, ha, hrebased⟩ :=
    reconcile_ok hr hstale
  have hcoherent : Coherent model after :=
    coherent_call (.reconcile proof binding finalizedThrough) hall _ after hafter
  obtain ⟨bytes, hcheckpoint⟩ := hrebased.checkpoint
  have hmem := hrebased.mem (mem_iff_lookup.mpr ⟨frame, ha.found⟩)
  obtain ⟨hpredicted, hmax⟩ := lastTick_eq_some.mp ha.last
  obtain ⟨transitions, hrecorded, hfold⟩ := hcoherent.playback hrebased.clean hcheckpoint
    ((hmem _).mpr ⟨by omega, (Nat.add_sub_cancel' ha.le).symm ▸ hpredicted⟩)
  refine ⟨before, after, predicted, decoded, _, transitions, hbefore, hafter, ha.last, ?_, ha.le,
    ha.decodes, hcheckpoint, rfl, rfl, ?_, hrecorded, hfold⟩
  · exact lastTick_eq_some.mpr ⟨(hmem predicted).mpr ⟨ha.le, hpredicted⟩,
      fun k hk => hmax k ((hmem k).mp hk).2⟩
  · rw [← hrecorded]
    exact (recorded_congr fun k hk => hrebased.later k hk).symm

/-! A walker on a line: a command adds its own tick, and the snapshot of a proof is the position it
decodes to. -/

structure Walk where
  value : ℕ
  deriving DecidableEq

instance : Payload Walk := ⟨fun _ => 0⟩

instance : PredictionLayout Walk Walk Walk := ⟨8, 8, 96, 160, 320, 24, 64, 8, 32, 32, 8, 24, 96⟩

def walkBinding : PredictionBinding := ⟨⟨1, 1, 1, ⟨4, 1⟩, 1⟩, 1, 0⟩

def walkModel : PredictionModel Unit Walk Walk Walk where
  decodeGroup proof _ := .ok ⟨⟨proof.publication.snapshot⟩, ⟨∅⟩⟩
  validState _ := true
  commandIdentity command := (walkBinding.owner, command.value, command.value)
  validCommand _ := true
  requiredDependencies _ _ := []
  step state _ command _ := .ok (⟨state.value + command.value⟩, ∅)
  stepSubstitute state _ _ := .ok (state, ∅)

/-- The walker at a tick, as the server has it. -/
def walkProof (revision snapshot tick : ℕ) : PublishedProof Unit where
  publication := ⟨1, 7, revision, snapshot⟩
  endTick := tick
  manifest := [⟨1, ⟨4, 1⟩, 1, 1⟩]
  states := []
  sorted := List.pairwise_singleton ..
  indices := List.nodup_singleton _

def walkStart : PredictionManager Walk Walk Walk where
  connection := 1
  limits := .default
  groups := ∅
  bytes := 0
  entities := 0
  frame := none
  work := {}
  topologyFences := ⟨∅, ∅⟩

theorem new_walkStart : new 1 .default = .ok walkStart := if_neg (by decide)

def walkCalls : List (Call Unit Walk Walk Walk) :=
  [.beginFrame 1, .initializeGroup (walkProof 1 1 1) walkBinding, .predict 7 ⟨2⟩ ⟨∅⟩,
    .predict 7 ⟨3⟩ ⟨∅⟩]

theorem replay_correct_walk : ∃ m after checkpoint,
    m = run (fun m c => (m.call walkModel c).1) walkStart walkCalls ∧
    (m.reconcile (walkProof 1 10 1) walkBinding 3 walkModel).2 = .ok (.replayed 2 3 {}) ∧
    (m.reconcile (walkProof 1 10 1) walkBinding 3 walkModel).1.groups[
      (walkProof 1 10 1).publication.group]? = some after ∧
    after.frames[(walkProof 1 10 1).endTick]? = some checkpoint ∧ checkpoint.state = ⟨10⟩ := by
  have hanswer : ((run (fun m c => (m.call walkModel c).1) walkStart walkCalls).reconcile
      (walkProof 1 10 1) walkBinding 3 walkModel).2 = .ok (.replayed 2 3 {}) := by decide +kernel
  obtain ⟨_, after, _, decoded, checkpoint, _, _, hafter, _, _, _, hdecoded, hcheckpoint,
      hstate, _⟩ :=
    (replay_correct walkModel 1 .default walkStart new_walkStart walkCalls).2 (walkProof 1 10 1)
      walkBinding 3 _ hanswer nofun
  cases hdecoded
  exact ⟨_, after, checkpoint, rfl, hanswer, hafter, hcheckpoint, hstate⟩

end PredictionManager
end Net.Prediction
