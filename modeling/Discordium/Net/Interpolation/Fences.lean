import Discordium.Net.Interpolation

/-!
# Net — Interpolation — Fences

Exits from the buffer of remote samples.  `exit` releases the history of a scope and keeps its
track, retired, as a fence against samples of it that are still on their way.

**Fences** (`exit_fences`).  Over any interleaving of `receive` and `exit` no call panics, and once
a scope has exited, nothing that is received later shows an entity of that scope, or of an earlier
one of its generation, again.
-/

namespace Net.Interpolation
open Lib Std

namespace RemoteBuffer

variable {P : Type} [Payload P] [SampleLayout P]

def exit (buffer : RemoteBuffer P) (scope : ScopeIdentity) : RemoteBuffer P × Answer Error Unit :=
  match buffer.tracks[scope.entity.index]? with
  | none => (buffer, .err .stale)
  | some track =>
    if track.identity.scope ≠ scope then (buffer, .err .stale)
    else if track.retired then (buffer, .ok ())
    else
      match checkedSub buffer.accounting.activeEntities 1,
        checkedSub buffer.accounting.samples track.samples.length,
        checkedSub buffer.accounting.retainedBytes (samplesCharge track.samples) with
      | some activeEntities, some samples, some retainedBytes =>
        ({ buffer with
            tracks := buffer.tracks.insert scope.entity.index
              { track with retired := true, samples := [] }
            accounting :=
              { buffer.accounting with activeEntities, samples, retainedBytes } }, .ok ())
      | _, _, _ => (buffer, .panic)

/-! ### One call -/

/-- The accounting is within the limits. -/
structure Within (buffer : RemoteBuffer P) : Prop where
  known : buffer.accounting.knownEntities ≤ buffer.config.limits.knownEntities
  samples : buffer.accounting.samples ≤ buffer.config.limits.totalSamples
  bytes : buffer.accounting.retainedBytes ≤ buffer.config.limits.retainedBytes

variable {buffer next : RemoteBuffer P} {identity : RemoteIdentity} {changed : Bool}

/-- **An exit** changes nothing, or retires the track of the scope and gives back what its history
was charged. -/
theorem exit_cases (h : Books buffer) (hwithin : Within buffer) (scope : ScopeIdentity) :
    buffer.exit scope = (buffer, .err .stale) ∨
      ∃ next track, buffer.exit scope = (next, .ok ()) ∧ buffer.tracks[scope.entity.index]? =
        some track ∧ track.identity.scope = scope ∧ Books next ∧ Within next ∧
        next.config = buffer.config ∧ (next = buffer ∧ track.retired = true ∨
          next.tracks =
            buffer.tracks.insert scope.entity.index
            { track with retired := true, samples := [] }) := by
  unfold exit
  cases htrack : buffer.tracks[scope.entity.index]? with
  | none => exact .inl rfl
  | some track =>
    dsimp only
    split
    case isTrue => exact .inl rfl
    case isFalse hscope =>
      replace hscope := not_not.mp hscope
      cases hretired : track.retired with
      | true => exact .inr ⟨buffer, track, rfl, rfl, hscope, h, hwithin, rfl, .inl ⟨rfl, hretired⟩⟩
      | false =>
        -- each total has the track's share in it
        have hput :=
          fun f : Track P → ℕ =>
            total_replace f htrack { track with retired := true, samples := [] }
        have hsize := hput fun _ => 1
        have hactive := hput fun track => if track.retired then 0 else 1
        have hsamples := hput fun track => track.samples.length
        have hbytes := hput fun track => trackCharge P + samplesCharge track.samples
        have hempty : samplesCharge ([] : List (RemoteSample P)) = 0 := by simp [samplesCharge]
        simp only [total_one, ← h.known, hretired, ← h.active, ← h.samples, ← h.bytes, hempty,
          List.length_nil, Bool.false_eq_true, if_true, if_false] at hsize hactive hsamples hbytes
        rw [checkedSub_eq_some.mpr ⟨by omega, rfl⟩, checkedSub_eq_some.mpr ⟨by omega, rfl⟩,
          checkedSub_eq_some.mpr ⟨by omega, rfl⟩]
        refine .inr ⟨_, track, rfl, rfl, hscope, ⟨?_, ?_, ?_, ?_⟩,
          ⟨hwithin.known, (Nat.sub_le _ _).trans hwithin.samples,
            (Nat.sub_le _ _).trans hwithin.bytes⟩, rfl, .inr rfl⟩
        all_goals
          dsimp only
          omega

theorem commit_within {old : Option (Track P)} {samples : List (RemoteSample P)} {result : Received}
    (h : buffer.commit identity old changed samples = (next, .ok result))
    (hknown : buffer.accounting.knownEntities + (if old.isNone then 1 else 0) ≤
      buffer.config.limits.knownEntities) :
    Within next := by
  unfold commit at h
  split at h
  · cases h
  · dsimp only at h
    split at h
    · cases h
    · split at h
      case isTrue => cases h
      case isFalse hroom =>
        cases h
        exact ⟨hknown, Nat.not_lt.mp fun hover => hroom (.inl hover),
          Nat.not_lt.mp fun hover => hroom (.inr hover)⟩

variable [BEq P]

/-- **A receipt** changes nothing and does not panic, or its track is replaced by one of the
sample's identity. -/
theorem receive_effect (h : Books buffer) (hwithin : Within buffer) (valid : P → Bool)
    (sample : RemoteSample P) :
    ((buffer.receive valid sample).1 = buffer ∧ (buffer.receive valid sample).2 ≠ .panic) ∨
      ∃ next result changed samples, buffer.receive valid sample = (next, .ok result) ∧
        checkTrack sample.identity buffer.tracks[sample.identity.scope.entity.index]? =
          .ok changed ∧
        Books next ∧ Within next ∧ next.config = buffer.config ∧
        next.tracks = buffer.tracks.insert sample.identity.scope.entity.index
          ⟨sample.identity, false, samples⟩ := by
  unfold receive
  split
  · exact .inl ⟨rfl, by simp⟩
  · dsimp only
    split
    · exact .inl ⟨rfl, by simp⟩
    case h_2 changed hchanged =>
      split
      case isTrue => exact .inl ⟨rfl, by simp⟩
      case isFalse hroom =>
        split
        · exact .inl ⟨rfl, by simp⟩
        · exact .inl ⟨rfl, by simp⟩
        case h_3 samples _ =>
          rcases commit_cases h changed samples with hcommit | ⟨next, result, hcommit, hbooks, -,
            hconfig, htracks⟩
          · exact .inl (by rw [hcommit]; exact ⟨rfl, by simp⟩)
          · refine .inr ⟨next, result, changed, samples, hcommit, hchanged, hbooks,
              commit_within hcommit ?_, hconfig, htracks⟩
            have := hwithin.known
            split
            case isTrue hnone => exact Nat.lt_of_le_of_ne this fun hfull => hroom ⟨hnone, hfull⟩
            case isFalse => exact this

/-! ### Fences -/

/-- A scope of a later generation of its entity, or of the same and entered later. -/
def Later (scope exited : ScopeIdentity) : Prop :=
  exited.entity.generation < scope.entity.generation ∨
    exited.entity.generation = scope.entity.generation ∧ exited.scope < scope.scope

/-- The entity has a track, which is the retired one of the scope that exited or of a later one. -/
def Fenced (exited : ScopeIdentity) (buffer : RemoteBuffer P) : Prop :=
  ∃ track, buffer.tracks[exited.entity.index]? = some track ∧
    (track.retired = true ∧ track.identity.scope = exited ∨ Later track.identity.scope exited)

variable {track : Track P} {valid : P → Bool} {sample : RemoteSample P}

omit [Payload P] [SampleLayout P] [BEq P] in
/-- What passes a track's check is not before its scope, and after it if the track is retired. -/
theorem checkTrack_later (h : checkTrack identity (some track) = .ok changed) :
    (track.retired = true → Later identity.scope track.identity.scope) ∧
      ∀ exited, Later track.identity.scope exited → Later identity.scope exited := by
  simp only [checkTrack] at h
  split_ifs at h with hstale heq hnewer hretired
  · simp only [Bool.not_eq_true, Bool.not_eq_false'] at hnewer
    rw [newerIdentity_iff] at hnewer
    unfold Later
    refine ⟨fun hretired => ?_, fun exited => by omega⟩
    have : ¬(identity.scope.entity.generation = track.identity.scope.entity.generation ∧
        identity.scope.scope ≤ track.identity.scope.scope) := fun hle => hstale ⟨hretired, hle⟩
    omega
  · rw [not_not.mp heq]
    exact ⟨fun h => absurd h hretired, fun _ hlater => hlater⟩

omit [Payload P] [SampleLayout P] [BEq P] in
/-- A track replaced at an index keeps the fence, if what it is replaced by does at that index. -/
theorem Fenced.insert {exited : ScopeIdentity} (h : Fenced exited buffer) {index : ℕ}
    (htracks : next.tracks = buffer.tracks.insert index track)
    (htrack : ∀ old, index = exited.entity.index → buffer.tracks[index]? = some old →
      (old.retired = true ∧ old.identity.scope = exited ∨ Later old.identity.scope exited) →
      (track.retired = true ∧ track.identity.scope = exited ∨ Later track.identity.scope exited)) :
    Fenced exited next := by
  obtain ⟨old, hold, hfence⟩ := h
  rw [Fenced, htracks, lookup_insert]
  split
  case isTrue heq => exact ⟨track, rfl, htrack old heq (heq ▸ hold) hfence⟩
  case isFalse => exact ⟨old, hold, hfence⟩

inductive Call (P : Type) where
  | receive (valid : P → Bool) (sample : RemoteSample P)
  | exit (scope : ScopeIdentity)

def call (buffer : RemoteBuffer P) : Call P → RemoteBuffer P
  | .receive valid sample => (buffer.receive valid sample).1
  | .exit scope => (buffer.exit scope).1

/-- What every run keeps. -/
structure Sound (buffer : RemoteBuffer P) : Prop where
  books : Books buffer
  within : Within buffer
  count : 1 ≤ buffer.config.limits.samplesPerEntity

omit [BEq P] in
theorem Sound.new {connection : ℕ} {config : Config} {start : RemoteBuffer P}
    (h : new connection config = .ok start) : Sound start := by
  obtain ⟨rfl, hcount, hbooks⟩ := new_eq_ok h
  exact ⟨hbooks, ⟨Nat.zero_le _, Nat.zero_le _, Nat.zero_le _⟩, one_le_two.trans hcount⟩

theorem Sound.call (h : Sound buffer) (call : Call P) :
    Sound (buffer.call call) ∧ ∀ exited, Fenced exited buffer → Fenced exited
      (buffer.call call) := by
  obtain ⟨hbooks, hwithin, hcount⟩ := h
  cases call with
  | receive valid sample =>
    rw [RemoteBuffer.call]
    rcases receive_effect hbooks hwithin valid sample with
      ⟨hsame, -⟩ | ⟨next, result, changed, samples, hreceive, hchanged, hbooks', hwithin',
        hconfig, htracks⟩
    · rw [hsame]
      exact ⟨⟨hbooks, hwithin, hcount⟩, fun _ hfenced => hfenced⟩
    · rw [hreceive]
      refine ⟨⟨hbooks', hwithin', hconfig ▸ hcount⟩,
        fun exited hfenced => hfenced.insert htracks ?_⟩
      intro old _ hold hfence
      rw [hold] at hchanged
      obtain ⟨hretired, hlater⟩ := checkTrack_later hchanged
      rcases hfence with ⟨hgone, hscope⟩ | hafter
      · exact .inr (hscope ▸ hretired hgone)
      · exact .inr (hlater exited hafter)
  | exit scope =>
    rw [RemoteBuffer.call]
    rcases exit_cases hbooks hwithin scope with
      hstale | ⟨next, track, hexit, htrack, -, hbooks', hwithin', hconfig, ⟨rfl, -⟩ | htracks⟩
    · rw [hstale]
      exact ⟨⟨hbooks, hwithin, hcount⟩, fun _ hfenced => hfenced⟩
    · rw [hexit]
      exact ⟨⟨hbooks, hwithin, hcount⟩, fun _ hfenced => hfenced⟩
    · rw [hexit]
      refine ⟨⟨hbooks', hwithin', hconfig ▸ hcount⟩,
        fun exited hfenced => hfenced.insert htracks ?_⟩
      intro old _ hold hfence
      cases Option.some.inj (htrack.symm.trans hold)
      exact hfence.imp_left fun hgone => ⟨rfl, hgone.2⟩

theorem Sound.run (h : Sound buffer) (calls : List (Call P)) :
    Sound (run RemoteBuffer.call buffer calls) :=
  run_invariant (fun _ call hsound => (hsound.call call).1) h calls

omit [BEq P] in
/-- An exit puts up the fence. -/
theorem Sound.exit (h : Sound buffer) {scope : ScopeIdentity}
    (hexit : (buffer.exit scope).2 = .ok ()) : Fenced scope (buffer.exit scope).1 := by
  rcases exit_cases h.books h.within scope with
    hstale | ⟨next, track, hnext, htrack, hscope, -, -, -, ⟨rfl, hretired⟩ | htracks⟩
  · rw [hstale] at hexit
    cases hexit
  · rw [hnext]
    exact ⟨track, htrack, .inl ⟨hretired, hscope⟩⟩
  · rw [hnext]
    refine ⟨{ track with retired := true, samples := [] }, ?_, .inl ⟨rfl, hscope⟩⟩
    rw [htracks, lookup_insert, if_pos rfl]

/-- A sample that its track's check refuses is refused. -/
theorem receive_refused
    (h : ∀ changed, checkTrack sample.identity buffer.tracks[sample.identity.scope.entity.index]? ≠
      .ok changed) :
    ∃ error, buffer.receive valid sample = (buffer, .err error) := by
  unfold receive
  split
  case h_1 error _ => exact ⟨error, rfl⟩
  · dsimp only
    split
    case h_1 error _ => exact ⟨error, rfl⟩
    case h_2 changed hchanged => exact absurd hchanged (h changed)

/-- A sample of a newer identity and a later scope starts a history, if there is room for it. -/
theorem Sound.receive_enters (h : Sound buffer) (hcheck : buffer.checkSample valid sample = .ok ())
    (htrack : buffer.tracks[sample.identity.scope.entity.index]? = some track)
    (hnewer : newerIdentity sample.identity track.identity = true)
    (hlater : Later sample.identity.scope track.identity.scope) :
    (buffer.receive valid sample).2 = .err .capacity ∨
      (buffer.receive valid sample).1.tracks[sample.identity.scope.entity.index]? =
        some ⟨sample.identity, false, [sample]⟩ := by
  have hne : sample.identity ≠ track.identity := by
    intro heq
    rw [heq] at hnewer
    exact newerIdentity_asymm hnewer hnewer
  have hstale : ¬(track.retired = true ∧
      sample.identity.scope.entity.generation = track.identity.scope.entity.generation ∧
      sample.identity.scope.scope ≤ track.identity.scope.scope) := by
    unfold Later at hlater
    omega
  have hchanged : checkTrack sample.identity (some track) = .ok true := by
    simp only [checkTrack, if_neg hstale, if_pos hne, hnewer, Bool.not_true,
      Bool.false_eq_true, if_false]
  simp only [receive, hcheck, htrack, hchanged, Option.isNone_some, Bool.false_eq_true, false_and,
    if_false, if_true, arrive_nil h.count]
  rw [← htrack]
  rcases commit_cases h.books true [sample] with hcommit | ⟨next, result, hcommit, -, -, -, htracks⟩
  · exact .inl (by rw [hcommit])
  · rw [hcommit, htracks, lookup_insert, if_pos rfl]
    exact .inr rfl

/-- **Exits fence.**  Over every run of receipts and exits. -/
theorem exit_fences {connection : ℕ} {config : Config} {start : RemoteBuffer P}
    (hnew : new connection config = .ok start) (before after : List (Call P))
    (scope : ScopeIdentity) :
    let exited := (run RemoteBuffer.call start before).exit scope
    let later := run RemoteBuffer.call exited.1 after
    Books later ∧ Within later ∧
    (∀ valid sample, (later.receive valid sample).2 ≠ .panic) ∧
    (∀ other, (later.exit other).2 ≠ .panic) ∧ (exited.2 = .ok () →
      (∀ track, later.tracks[scope.entity.index]? = some track → track.retired = false →
        Later track.identity.scope scope) ∧
      (∀ valid sample, sample.identity.scope.entity.index = scope.entity.index →
        ¬Later sample.identity.scope scope →
        ∃ error, later.receive valid sample = (later, .err error))) ∧
    ∀ valid sample track, later.checkSample valid sample = .ok () →
      later.tracks[sample.identity.scope.entity.index]? = some track →
      newerIdentity sample.identity track.identity = true →
      Later sample.identity.scope track.identity.scope → (later.receive valid sample).2 =
        .err .capacity ∨
          (later.receive valid sample).1.tracks[sample.identity.scope.entity.index]? =
          some ⟨sample.identity, false, [sample]⟩ := by
  intro exited later
  have hbefore := (Sound.new hnew).run before
  have hexited : Sound exited.1 := (hbefore.call (.exit scope)).1
  have hlater : Sound later := hexited.run after
  refine ⟨hlater.books, hlater.within, fun valid sample => ?_, fun other => ?_, fun hok => ?_,
    fun valid sample track => hlater.receive_enters⟩
  · rcases receive_effect hlater.books hlater.within valid sample
      with ⟨-, hne⟩ | ⟨_, _, _, _, heq, -⟩
    · exact hne
    · rw [heq]
      simp
  · rcases exit_cases hlater.books hlater.within other with heq | ⟨_, _, heq, -⟩ <;> simp [heq]
  · have hfence : Fenced scope exited.1 := hbefore.exit hok
    have hkept : Sound later ∧ Fenced scope later :=
      run_invariant (I := fun buffer => Sound buffer ∧ Fenced scope buffer)
        (fun _ call h => ⟨(h.1.call call).1, (h.1.call call).2 scope h.2⟩) ⟨hexited, hfence⟩ after
    obtain ⟨track, htrack, hshown⟩ := hkept.2
    refine ⟨fun other hother hlive => ?_, fun valid sample hindex hearly => ?_⟩
    · cases Option.some.inj (htrack.symm.trans hother)
      rcases hshown with ⟨hretired, -⟩ | hafter
      · exact absurd (hretired.symm.trans hlive) (by simp)
      · exact hafter
    · refine receive_refused fun changed hchanged => hearly ?_
      rw [hindex, htrack] at hchanged
      obtain ⟨hretired, hstays⟩ := checkTrack_later hchanged
      rcases hshown with ⟨hgone, hscope⟩ | hafter
      · exact hscope ▸ hretired hgone
      · exact hstays scope hafter

/-- The scope of the entity with index 7 exits, and a newer segment of it is refused. -/
theorem exit_fences_late : ∃ start, new 1 shortConfig = .ok start ∧
    let exited :=
      (run RemoteBuffer.call start [.receive (fun _ => true) (poseAt 1 3 1)]).exit ⟨1, ⟨7, 1⟩, 1, 1⟩
    exited.2 = .ok () ∧
    ∃ error, exited.1.receive (fun _ => true) (poseAt 2 4 2) = (exited.1, .err error) := by
  refine ⟨⟨1, shortConfig, ∅, ⟨0, 0, 0, 0⟩⟩, rfl, by decide +kernel, ?_⟩
  have hfences := @exit_fences (List UInt8) _ _ _ 1 shortConfig _ rfl
    [.receive (fun _ => true) (poseAt 1 3 1)] [] ⟨1, ⟨7, 1⟩, 1, 1⟩
  exact (hfences.2.2.2.2.1 (by decide +kernel)).2 _ _ rfl (by unfold Later; decide +kernel)

end RemoteBuffer
end Net.Interpolation
