import Discordium.Lib.Fallible
import Discordium.Lib.Machine
import Discordium.Lib.Recent
import Discordium.Lib.Totals
import Discordium.Net.Clock
import Discordium.Net.Replication.Types

/-!
# Net — Interpolation

The buffer of remote samples of `interpolation/mod.rs`.  A track keeps the samples of one identity
of an entity: a sample of a newer identity replaces the track, one of an older identity is stale,
and one of the same identity is entered in order of ticks, with what is then too far behind the
newest tick or one too many dropped.

**Arrival order** (`receive_any_order`).  Without exits, and as long as nothing is refused for
capacity, the track of an entity depends on which samples arrived for it and not on their order or
number.  The accounting is that of the tracks throughout.
-/

namespace Net.Interpolation
open Lib Std

structure RemoteIdentity where
  scope : ScopeIdentity
  scene : ℕ
  /-- Monotonic within a scope and scene. -/
  segment : ℕ
  deriving DecidableEq

structure RemoteSample (P : Type) where
  identity : RemoteIdentity
  tick : ℕ
  value : P
  deriving DecidableEq, BEq

structure Limits where
  knownEntities : ℕ
  samplesPerEntity : ℕ
  totalSamples : ℕ
  historyTicks : ℕ
  sampleHeapBytes : ℕ
  retainedBytes : ℕ

structure Config where
  rate : TickRate
  extrapolationCap : ℕ
  limits : Limits

inductive Error where
  | invalidConfiguration
  | invalidIdentity
  | invalidPayload
  | wrongEpoch
  | stale
  | conflict
  | capacity
  | timeRange
  deriving DecidableEq

inductive Received where
  | inserted
  | duplicate
  | tooOld
  | discontinuity
  deriving DecidableEq

structure Accounting where
  knownEntities : ℕ
  activeEntities : ℕ
  samples : ℕ
  retainedBytes : ℕ

structure Track (P : Type) where
  identity : RemoteIdentity
  retired : Bool
  samples : List (RemoteSample P)

structure RemoteBuffer (P : Type) where
  connection : ℕ
  config : Config
  tracks : ExtTreeMap ℕ (Track P)
  accounting : Accounting

/-- The sizes of a sample and of a track in its map. -/
class SampleLayout (P : Type) where
  sample : ℕ
  track : ℕ

/-! ### Identities -/

def validateIdentity (identity : RemoteIdentity) (connection : ℕ) : Except Error Unit :=
  if identity.scope.connection ≠ connection then .error .wrongEpoch
  else if identity.scope.entity.generation = 0 ∨ identity.scope.scope = 0 ∨
    identity.scope.representation = 0 ∨
      identity.scene = 0 ∨ identity.segment = 0 then
    .error .invalidIdentity
  else .ok ()

def newerIdentity (new old : RemoteIdentity) : Bool :=
  if new.scene < old.scene then false
  else if new.scope.entity.generation ≠ old.scope.entity.generation then
    new.scope.entity.generation > old.scope.entity.generation
  else if new.scope.scope ≠ old.scope.scope then new.scope.scope > old.scope.scope
  else if new.scope.representation ≠ old.scope.representation then
    new.scope.representation > old.scope.representation
  else if new.scene ≠ old.scene then new.scene > old.scene
  else new.segment > old.segment

/-- A newer identity is of no older scene, and later in the order of the fields. -/
theorem newerIdentity_iff {new old : RemoteIdentity} :
    newerIdentity new old = true ↔ old.scene ≤ new.scene ∧
      (old.scope.entity.generation < new.scope.entity.generation ∨
        old.scope.entity.generation = new.scope.entity.generation ∧
        (old.scope.scope < new.scope.scope ∨ old.scope.scope = new.scope.scope ∧
          (old.scope.representation < new.scope.representation ∨
            old.scope.representation = new.scope.representation ∧
            (old.scene < new.scene ∨ old.scene = new.scene ∧ old.segment < new.segment)))) := by
  unfold newerIdentity
  split
  · simp only [Bool.false_eq_true, false_iff]
    omega
  · repeat' split
    all_goals
      rw [decide_eq_true_eq]
      omega

variable {a b : RemoteIdentity}

theorem newerIdentity_trans {c : RemoteIdentity} (hab : newerIdentity a b = true)
    (hbc : newerIdentity b c = true) : newerIdentity a c = true := by
  rw [newerIdentity_iff] at *
  omega

theorem newerIdentity_asymm (hab : newerIdentity a b = true) : newerIdentity b a ≠ true := by
  intro hba
  rw [newerIdentity_iff] at hab hba
  omega

/-! ### Charges -/

section
variable {P : Type} [Payload P] [SampleLayout P]

/-- `track_charge`. -/
def trackCharge (P : Type) [SampleLayout P] : ℕ := SampleLayout.track P + 64

def samplesCharge (samples : List (RemoteSample P)) : ℕ :=
  samples.foldl (fun sum sample => saturatingAdd 64 sum (Payload.retainedBytes sample.value))
    (samples.length * SampleLayout.sample P)

end

/-! ### Receiving -/

namespace RemoteBuffer

variable {P : Type} [Payload P] [SampleLayout P]

def new (connection : ℕ) (config : Config) : Except Error (RemoteBuffer P) :=
  if connection = 0 then .error .invalidIdentity
  else if config.limits.knownEntities = 0 ∨ config.limits.samplesPerEntity < 2 ∨
    config.limits.totalSamples < 2 ∨
      config.limits.historyTicks = 0 ∨ config.limits.retainedBytes < trackCharge P ∨
      config.extrapolationCap > 100000000 then
    .error .invalidConfiguration
  else .ok ⟨connection, config, ∅, ⟨0, 0, 0, 0⟩⟩

/-- The checks of `receive` on a sample alone; `valid` is the pose policy's. -/
def checkSample (buffer : RemoteBuffer P) (valid : P → Bool) (sample : RemoteSample P) :
    Except Error Unit :=
  (validateIdentity sample.identity buffer.connection).bind fun _ =>
    (require .timeRange ((buffer.config.rate.deadline sample.tick).isSome = true)).bind fun _ =>
      (require .invalidPayload (valid sample.value = true)).bind fun _ =>
        require .capacity (Payload.retainedBytes sample.value ≤
          buffer.config.limits.sampleHeapBytes)

/-- Whether an identity starts a new history. -/
def checkTrack (identity : RemoteIdentity) : Option (Track P) → Except Error Bool
  | none => .ok true
  | some old =>
    if old.retired = true ∧ identity.scope.entity.generation =
      old.identity.scope.entity.generation ∧
        identity.scope.scope ≤ old.identity.scope.scope then
      .error .stale
    else if identity ≠ old.identity then
      if !newerIdentity identity old.identity then .error .stale else .ok true
    else if old.retired then .error .stale
    else .ok false

/-- What a sample does to a history: it is answered at once, or a new history is staged. -/
inductive Arrival (P : Type) where
  | answered (result : Received)
  | refused (error : Error)
  | staged (samples : List (RemoteSample P))

def arrive [BEq P] (limits : Limits) (prior : List (RemoteSample P)) (sample : RemoteSample P) :
    Arrival P :=
  match prior.find? (·.tick = sample.tick) with
  | some existing => if existing == sample then .answered .duplicate else .refused .conflict
  | none =>
    let floor := newestKey (·.tick) prior sample - limits.historyTicks
    if sample.tick < floor ∨
        (prior.length = limits.samplesPerEntity ∧
          prior.head?.any (sample.tick < ·.tick) = true) then
      .answered .tooOld
    else
      let samples := enterByKey (·.tick) sample (prior.filter (floor ≤ ·.tick))
      .staged (if samples.length > limits.samplesPerEntity then samples.tail else samples)

/-- The end of `receive`: the accounting, and the track replaced. -/
def commit (buffer : RemoteBuffer P) (identity : RemoteIdentity) (old : Option (Track P))
    (changed : Bool) (samples : List (RemoteSample P)) : RemoteBuffer P × Answer Error Received :=
  match checkedSub buffer.accounting.samples (old.elim 0 (·.samples.length)) with
  | none => (buffer, .panic)
  | some others =>
    let sampleCount := others + samples.length
    let bytes :=
      ((checkedSub buffer.accounting.retainedBytes (old.elim 0 fun track =>
        samplesCharge track.samples)).bind
      fun bytes => checkedAdd 64 bytes (samplesCharge samples)).bind
      fun bytes => checkedAdd 64 bytes (if old.isNone then trackCharge P else 0)
    match bytes with
    | none => (buffer, .err .capacity)
    | some bytes =>
      if sampleCount > buffer.config.limits.totalSamples ∨
        bytes > buffer.config.limits.retainedBytes then
        (buffer, .err .capacity)
      else
        ({ buffer with
            tracks := buffer.tracks.insert identity.scope.entity.index ⟨identity, false, samples⟩
            accounting :=
              { knownEntities := buffer.accounting.knownEntities + if old.isNone then 1 else 0
                activeEntities := buffer.accounting.activeEntities + if old.all (·.retired)
                  then 1 else 0
                samples := sampleCount
                retainedBytes := bytes } },
          .ok (if changed && old.isSome then .discontinuity else .inserted))

def receive [BEq P] (buffer : RemoteBuffer P) (valid : P → Bool) (sample : RemoteSample P) :
    RemoteBuffer P × Answer Error Received :=
  match buffer.checkSample valid sample with
  | .error error => (buffer, .err error)
  | .ok _ =>
    let old := buffer.tracks[sample.identity.scope.entity.index]?
    match checkTrack sample.identity old with
    | .error error => (buffer, .err error)
    | .ok changed =>
      if old.isNone ∧ buffer.accounting.knownEntities = buffer.config.limits.knownEntities then
        (buffer, .err .capacity)
      else
        match arrive buffer.config.limits (if changed then []
          else old.elim [] (·.samples)) sample with
        | .answered result => (buffer, .ok result)
        | .refused error => (buffer, .err error)
        | .staged samples => buffer.commit sample.identity old changed samples

/-! ### The accounting -/

/-- The accounting is the sums over the tracks. -/
structure Books (buffer : RemoteBuffer P) : Prop where
  known : buffer.accounting.knownEntities = buffer.tracks.size
  active : buffer.accounting.activeEntities =
    total (fun track => if track.retired then 0 else 1) buffer.tracks
  samples : buffer.accounting.samples = total (fun track => track.samples.length) buffer.tracks
  bytes : buffer.accounting.retainedBytes =
    total (fun track => trackCharge P + samplesCharge track.samples) buffer.tracks

variable {connection : ℕ} {config : Config} {start buffer : RemoteBuffer P}
  {identity : RemoteIdentity}

theorem new_eq_ok (h : new connection config = .ok start) :
    start = ⟨connection, config, ∅, ⟨0, 0, 0, 0⟩⟩ ∧ 2 ≤ config.limits.samplesPerEntity ∧
      Books start := by
  unfold new at h
  split_ifs at h
  cases h
  refine ⟨rfl, by omega, ExtTreeMap.size_empty.symm, ?_, ?_, ?_⟩
  all_goals exact (total_empty _).symm

/-- **A commit** is refused for capacity and changes nothing, or replaces the track and keeps the
books. -/
theorem commit_cases (h : Books buffer) (changed : Bool) (samples : List (RemoteSample P)) :
    buffer.commit identity buffer.tracks[identity.scope.entity.index]? changed samples =
      (buffer, .err .capacity) ∨ ∃ next result,
        buffer.commit identity buffer.tracks[identity.scope.entity.index]? changed samples =
          (next, .ok result) ∧
        Books next ∧ next.connection = buffer.connection ∧ next.config = buffer.config ∧
        next.tracks = buffer.tracks.insert identity.scope.entity.index
          ⟨identity, false, samples⟩ := by
  generalize hindex : identity.scope.entity.index = index
  have hput : ∀ f : Track P → ℕ, total f (buffer.tracks.insert index ⟨identity, false, samples⟩) +
      buffer.tracks[index]?.elim 0 f = total f buffer.tracks + f ⟨identity, false, samples⟩ :=
    fun f => total_put f buffer.tracks index _
  have hsize := hput fun _ => 1
  have hactive := hput fun track => if track.retired then 0 else 1
  have hsamples := hput fun track => track.samples.length
  have hbytes := hput fun track => trackCharge P + samplesCharge track.samples
  rw [total_one, total_one, ← h.known] at hsize
  rw [← h.active] at hactive
  rw [← h.samples] at hsamples
  rw [← h.bytes] at hbytes
  have hle : buffer.tracks[index]?.elim 0 (·.samples.length) ≤ buffer.accounting.samples := by
    rw [h.samples]
    cases hold : buffer.tracks[index]? with
    | none => exact Nat.zero_le _
    | some old => exact le_total (fun track => track.samples.length) hold
  unfold commit
  rw [checkedSub_eq_some.mpr ⟨hle, rfl⟩]
  dsimp only
  split
  · exact .inl rfl
  case h_2 bytes hsum =>
    split
    · exact .inl rfl
    · refine .inr ⟨_, _, rfl, ⟨?_, ?_, ?_, ?_⟩, rfl, rfl, by rw [hindex]⟩
      all_goals
        simp only [hindex]
        obtain ⟨staged, hstaged, htrack⟩ := Option.bind_eq_some_iff.mp hsum
        obtain ⟨others, hothers, hcharge⟩ := Option.bind_eq_some_iff.mp hstaged
        obtain ⟨hsub, rfl⟩ := checkedSub_eq_some.mp hothers
        obtain ⟨rfl, -⟩ := checkedAdd_eq_some.mp hcharge
        obtain ⟨rfl, -⟩ := checkedAdd_eq_some.mp htrack
        cases hold : buffer.tracks[index]? with
        | none =>
          simp only [hold, Option.elim_none, Option.isNone_none, Option.all_none,
            Bool.false_eq_true, if_true, if_false] at *
          omega
        | some old =>
          cases hretired : old.retired
          all_goals
            simp only [hold, hretired, Option.elim_some, Option.isNone_some, Option.all_some,
              Bool.false_eq_true, if_true, if_false] at *
            omega

/-! ### One arrival -/

variable [BEq P]

/-- The histories a limit allows. -/
def History (limits : Limits) (ticks : Set ℕ) (samples : List (RemoteSample P)) : Prop :=
  Recent (·.tick) limits.historyTicks limits.samplesPerEntity ticks samples

variable {limits : Limits} {sample : RemoteSample P}
  {arrived arrivals arrived' : List (RemoteSample P)} {track : Option (Track P)} {valid : P → Bool}
  {index : ℕ}

omit [Payload P] [SampleLayout P] in
/-- **An arrival** keeps the latest samples of what has been received, whether it is entered or
not. -/
theorem arrive_history (hcount : 1 ≤ limits.samplesPerEntity) {ticks : Set ℕ}
    {prior : List (RemoteSample P)} (h : History limits ticks prior) (sample : RemoteSample P) :
    (∃ samples, arrive limits prior sample = .staged samples ∧
      History limits (insert sample.tick ticks) samples ∧
        ∀ kept ∈ samples, kept = sample ∨ kept ∈ prior) ∨
      (∀ samples, arrive limits prior sample ≠ .staged samples) ∧
        History limits (insert sample.tick ticks) prior := by
  unfold arrive
  split
  case h_1 existing hfind =>
    -- the tick is there already, and the answer does not depend on the payload
    have hmem := List.mem_of_find?_eq_some hfind
    have htick : existing.tick = sample.tick := by simpa using List.find?_some hfind
    refine .inr ⟨?_, @Recent.again _ _ _ _ _ _ sample _ h hmem htick⟩
    split <;> exact nofun
  case h_2 hfind =>
    have hnew : ∀ kept ∈ prior, kept.tick ≠ sample.tick := by
      simpa using List.find?_eq_none.mp hfind
    dsimp only
    split
    case isTrue hold =>
      refine .inr ⟨nofun, ?_⟩
      rcases hold with hdeep | ⟨hlength, hfirst⟩
      · exact @Recent.deep _ _ _ _ _ _ sample h hdeep
      · cases hhead : prior.head? with
        | none => simp [hhead] at hfirst
        | some first =>
            exact @Recent.full _ _ _ _ _ _ sample h hlength first hhead
              (by simpa [hhead] using hfirst)
    case isFalse hrecent =>
      obtain ⟨hnear, hfull⟩ := not_or.mp hrecent
      refine .inl ⟨_, rfl, ?_, fun kept hkept => ?_⟩
      · refine @Recent.enter _ _ _ _ _ _ sample h hnew (Nat.not_lt.mp hnear) hcount
          fun hlength first hfirst => ?_
        by_contra hlt
        exact hfull ⟨hlength, by simpa [hfirst] using hlt⟩
      · have hmem : kept ∈ Recent.entered (·.tick) limits.historyTicks prior sample := by
          split at hkept
          · exact List.mem_of_mem_tail hkept
          · exact hkept
        exact (Recent.mem_entered.mp hmem).imp_right (·.1)

omit [Payload P] [SampleLayout P] in
/-- An arrival at an empty history. -/
theorem arrive_nil (hcount : 1 ≤ limits.samplesPerEntity) (sample : RemoteSample P) :
    arrive limits [] sample = .staged [sample] := by
  have hroom : ¬1 > limits.samplesPerEntity := Nat.not_lt.mpr hcount
  simp [arrive, newestKey, enterByKey, hroom]

/-- What a sample that passes its own checks does to the track of its entity. -/
def follow (limits : Limits) (sample : RemoteSample P) : Option (Track P) → Option (Track P)
  | none => some ⟨sample.identity, false, [sample]⟩
  | some old =>
    if sample.identity = old.identity then
      match arrive limits old.samples sample with
      | .staged samples => some ⟨sample.identity, false, samples⟩
      | _ => some old
    else if newerIdentity sample.identity old.identity then some ⟨sample.identity, false, [sample]⟩
    else some old

/-- No track is retired. -/
def Live (buffer : RemoteBuffer P) : Prop :=
  ∀ (index : ℕ) (track : Track P), buffer.tracks[index]? = some track → track.retired = false

/-- What a call that is not refused for capacity does with a sample that passes its own checks. -/
structure Followed (buffer : RemoteBuffer P) (sample : RemoteSample P)
    (next : RemoteBuffer P) : Prop where
  books : Books next
  connection : next.connection = buffer.connection
  config : next.config = buffer.config
  tracks : ∀ index, next.tracks[index]? =
    if index = sample.identity.scope.entity.index
      then follow buffer.config.limits sample buffer.tracks[index]?
    else buffer.tracks[index]?

theorem Followed.self (h : Books buffer)
    (hfollow : follow buffer.config.limits sample
      buffer.tracks[sample.identity.scope.entity.index]? =
      buffer.tracks[sample.identity.scope.entity.index]?) : Followed buffer sample buffer := by
  refine ⟨h, rfl, rfl, fun index => ?_⟩
  split
  case isTrue heq => rw [heq, hfollow]
  case isFalse => rfl

/-- A staged history is committed, or refused for capacity. -/
theorem Followed.commit (h : Books buffer) {changed : Bool}
    {samples : List (RemoteSample P)}
    (hfollow : follow buffer.config.limits sample
      buffer.tracks[sample.identity.scope.entity.index]? =
      some ⟨sample.identity, false, samples⟩) :
    (buffer.commit sample.identity buffer.tracks[sample.identity.scope.entity.index]? changed
      samples).2 =
        .err .capacity ∨
      (buffer.commit sample.identity buffer.tracks[sample.identity.scope.entity.index]? changed
        samples).2 ≠ .panic ∧ Followed buffer sample
          (buffer.commit sample.identity buffer.tracks[sample.identity.scope.entity.index]? changed
            samples).1 := by
  rcases commit_cases h changed samples with hcommit | ⟨next, result, hcommit, hbooks, hconnection,
    hconfig, htracks⟩
  · exact .inl (by rw [hcommit])
  · rw [hcommit]
    refine .inr ⟨nofun, hbooks, hconnection, hconfig, fun index => ?_⟩
    rw [htracks, lookup_insert]
    split
    case isTrue heq => rw [if_pos heq.symm, ← heq, hfollow]
    case isFalse hne => rw [if_neg (Ne.symm hne)]

/-- **A call** is refused for capacity; or the sample fails its own checks and nothing changes; or
the track of its entity follows it. -/
theorem receive_cases (h : Books buffer) (hlive : Live buffer)
    (hcount : 1 ≤ buffer.config.limits.samplesPerEntity) (valid : P → Bool)
    (sample : RemoteSample P) :
    (buffer.receive valid sample).2 = .err .capacity ∨
      (∃ error, buffer.checkSample valid sample = .error error ∧ buffer.receive valid sample =
        (buffer, .err error)) ∨
      buffer.checkSample valid sample = .ok () ∧ (buffer.receive valid sample).2 ≠ .panic ∧
        Followed buffer sample (buffer.receive valid sample).1 := by
  unfold receive
  cases hcheck : buffer.checkSample valid sample with
  | error error => exact .inr (.inl ⟨error, rfl, rfl⟩)
  | ok _ =>
    dsimp only
    cases hold : buffer.tracks[sample.identity.scope.entity.index]? with
    | none =>
      dsimp only [checkTrack]
      split
      · exact .inl rfl
      · rw [if_pos rfl, arrive_nil hcount]
        dsimp only
        rw [← hold]
        refine (Followed.commit h ?_).imp_right fun hfollowed => .inr ⟨rfl, hfollowed⟩
        rw [hold, follow]
    | some old =>
      have hretired := hlive _ old hold
      have hnone : ¬((some old).isNone = true ∧
          buffer.accounting.knownEntities = buffer.config.limits.knownEntities) :=
            fun hfull => nomatch hfull.1
      have hstale : ¬(old.retired = true ∧
          sample.identity.scope.entity.generation = old.identity.scope.entity.generation ∧
          sample.identity.scope.scope ≤ old.identity.scope.scope) :=
            fun hstale => by simp [hretired] at hstale
      rw [checkTrack, if_neg hstale]
      by_cases heq : sample.identity = old.identity
      · rw [if_neg (not_not.mpr heq), hretired]
        simp only [Bool.false_eq_true, if_false, if_neg hnone, Option.elim_some]
        have hfollow := follow.eq_def buffer.config.limits sample (some old)
        simp only [if_pos heq] at hfollow
        cases harrive : arrive buffer.config.limits old.samples sample with
        | staged samples =>
          rw [harrive] at hfollow
          rw [← hold] at hfollow ⊢
          exact (Followed.commit h hfollow).imp_right fun hfollowed => .inr ⟨trivial, hfollowed⟩
        | answered result =>
          rw [harrive, ← hold] at hfollow
          exact .inr (.inr ⟨trivial, nofun, .self h hfollow⟩)
        | refused error =>
          rw [harrive, ← hold] at hfollow
          exact .inr (.inr ⟨trivial, nofun, .self h hfollow⟩)
      · rw [if_pos heq]
        have hfollow := follow.eq_def buffer.config.limits sample (some old)
        simp only [if_neg heq] at hfollow
        cases hnewer : newerIdentity sample.identity old.identity with
        | true =>
          simp only [Bool.not_true, Bool.false_eq_true, if_false, if_true, if_neg hnone,
            arrive_nil hcount]
          rw [hnewer, if_pos rfl] at hfollow
          rw [← hold] at hfollow ⊢
          exact (Followed.commit h hfollow).imp_right fun hfollowed => .inr ⟨trivial, hfollowed⟩
        | false =>
          rw [hnewer, if_neg Bool.false_ne_true, ← hold] at hfollow
          exact .inr (.inr ⟨rfl, nofun, .self h hfollow⟩)

/-! ### Whole runs -/

/-- The ticks received under an identity. -/
def ticksOf (arrived : List (RemoteSample P)) (identity : RemoteIdentity) : Finset ℕ :=
  ((arrived.filter (·.identity = identity)).map (·.tick)).toFinset

omit [Payload P] [SampleLayout P] [BEq P] in
theorem mem_ticksOf {tick : ℕ} :
    tick ∈ ticksOf arrived identity ↔ ∃ sample ∈ arrived, sample.identity = identity ∧
      sample.tick = tick := by
  simp only [ticksOf, List.mem_toFinset, List.mem_map, List.mem_filter, decide_eq_true_eq,
    and_assoc]

omit [Payload P] [SampleLayout P] [BEq P] in
theorem ticksOf_snoc (arrived : List (RemoteSample P)) (sample : RemoteSample P) :
    (ticksOf (arrived ++ [sample]) sample.identity : Set ℕ) =
    insert sample.tick ↑(ticksOf arrived sample.identity) := by
  ext tick
  simp only [Finset.mem_coe, mem_ticksOf, List.mem_append, List.mem_singleton, Set.mem_insert_iff]
  constructor
  · rintro ⟨other, hother | rfl, hidentity, rfl⟩
    · exact .inr ⟨other, hother, hidentity, rfl⟩
    · exact .inl rfl
  · rintro (rfl | ⟨other, hother, hidentity, rfl⟩)
    · exact ⟨sample, .inr rfl, rfl, rfl⟩
    · exact ⟨other, .inl hother, hidentity, rfl⟩

omit [Payload P] [SampleLayout P] [BEq P] in
theorem ticksOf_snoc_ne (hne : sample.identity ≠ identity) :
    ticksOf (arrived ++ [sample]) identity = ticksOf arrived identity := by
  simp [ticksOf, hne]

/-- Of two identities one is newer. -/
def Ordered (arrived : List (RemoteSample P)) : Prop :=
  ∀ sample ∈ arrived, ∀ other ∈ arrived, sample.identity ≠ other.identity →
    newerIdentity sample.identity other.identity = true ∨
      newerIdentity other.identity sample.identity = true

/-- The track of an entity after the samples that arrived for it. -/
structure Latest (limits : Limits) (arrived : List (RemoteSample P)) (track : Track P) : Prop where
  active : track.retired = false
  current : ∃ sample ∈ arrived, sample.identity = track.identity
  newest : ∀ sample ∈ arrived, sample.identity = track.identity ∨
    newerIdentity track.identity sample.identity = true
  history : History limits (ticksOf arrived track.identity) track.samples
  arrived : ∀ kept ∈ track.samples, kept ∈ arrived ∧ kept.identity = track.identity

/-- An entity without samples has no track. -/
def Tracked (limits : Limits) (arrived : List (RemoteSample P)) : Option (Track P) → Prop
  | none => arrived = []
  | some track => Latest limits arrived track

omit [Payload P] [SampleLayout P] [BEq P] in
/-- A history that starts with a sample whose identity is new. -/
theorem Latest.first (hcount : 1 ≤ limits.samplesPerEntity)
    (hnewest : ∀ other ∈ arrived, newerIdentity sample.identity other.identity = true) :
    Latest limits (arrived ++ [sample]) ⟨sample.identity, false, [sample]⟩ := by
  have hnone : ticksOf arrived sample.identity = ∅ := by
    refine Finset.eq_empty_of_forall_notMem fun tick htick => ?_
    obtain ⟨other, hother, hidentity, -⟩ := mem_ticksOf.mp htick
    have hnewer := hnewest other hother
    rw [hidentity] at hnewer
    exact newerIdentity_asymm hnewer hnewer
  refine ⟨rfl, ⟨sample, List.mem_append_right _ (List.mem_singleton_self sample), rfl⟩,
    fun other hother => ?_, ?_, fun kept hkept => ?_⟩
  · rcases List.mem_append.mp hother with hother | hother
    · exact .inr (hnewest other hother)
    · exact .inl (by rw [List.mem_singleton.mp hother])
  · rw [ticksOf_snoc, hnone, Finset.coe_empty, insert_empty_eq]
    exact Recent.first hcount sample
  · rw [List.mem_singleton.mp hkept]
    exact ⟨List.mem_append_right _ (List.mem_singleton_self sample), rfl⟩

omit [Payload P] [SampleLayout P] in
/-- **A track follows its samples.** -/
theorem Tracked.follow (hcount : 1 ≤ limits.samplesPerEntity)
    (hordered : Ordered (arrived ++ [sample])) (h : Tracked limits arrived track) :
    Tracked limits (arrived ++ [sample]) (follow limits sample track) := by
  have hsample : sample ∈ arrived ++ [sample] :=
    List.mem_append_right _ (List.mem_singleton_self sample)
  cases track with
  | none =>
    obtain rfl : arrived = [] := h
    exact Latest.first hcount nofun
  | some old =>
    have h : Latest limits arrived old := h
    unfold RemoteBuffer.follow
    dsimp only
    split
    case isTrue heq =>
      have hnewest : ∀ other ∈ arrived ++ [sample], other.identity = old.identity ∨
          newerIdentity old.identity other.identity = true := by
        intro other hother
        rcases List.mem_append.mp hother with hother | hother
        · exact h.newest other hother
        · exact .inl (by rw [List.mem_singleton.mp hother, heq])
      have hcurrent : ∃ other ∈ arrived ++ [sample], other.identity = old.identity :=
        ⟨sample, hsample, heq⟩
      have hticks := ticksOf_snoc arrived sample
      rw [heq] at hticks
      rcases arrive_history hcount h.history sample
        with ⟨samples, harrive, hhistory, hkept⟩ | ⟨hnone, hhistory⟩
      · rw [harrive, heq]
        refine ⟨rfl, hcurrent, hnewest, hticks ▸ hhistory, fun kept hmem => ?_⟩
        rcases hkept kept hmem with rfl | hmem
        · exact ⟨hsample, heq⟩
        · exact ⟨List.mem_append_left _ (h.arrived kept hmem).1, (h.arrived kept hmem).2⟩
      · have hlatest : Latest limits (arrived ++ [sample]) old :=
          ⟨h.active, hcurrent, hnewest, hticks ▸ hhistory, fun kept hmem =>
            ⟨List.mem_append_left _ (h.arrived kept hmem).1, (h.arrived kept hmem).2⟩⟩
        cases harrive : arrive limits old.samples sample with
        | staged samples => exact absurd harrive (hnone samples)
        | answered result => exact hlatest
        | refused error => exact hlatest
    case isFalse hne =>
      obtain ⟨current, hcurrent, hidentity⟩ := h.current
      have hcurrent' : current ∈ arrived ++ [sample] := List.mem_append_left _ hcurrent
      split
      case isTrue hnewer =>
        refine Latest.first hcount fun other hother => ?_
        rcases h.newest other hother with heq | hold
        · rw [heq]
          exact hnewer
        · exact newerIdentity_trans hnewer hold
      case isFalse hnewer =>
        -- the identities are ordered, so the one that is not newer is older
        have hold : newerIdentity old.identity sample.identity = true := by
          rcases hordered sample hsample current hcurrent' (by rwa [hidentity]) with hnew | hold
          · rw [hidentity] at hnew
            exact absurd hnew hnewer
          · rwa [hidentity] at hold
        refine ⟨h.active, ⟨current, hcurrent', hidentity⟩, fun other hother => ?_, ?_,
          fun kept hkept =>
          ⟨List.mem_append_left _ (h.arrived kept hkept).1, (h.arrived kept hkept).2⟩⟩
        · rcases List.mem_append.mp hother with hother | hother
          · exact h.newest other hother
          · exact .inr (by rwa [List.mem_singleton.mp hother])
        · rw [ticksOf_snoc_ne hne]
          exact h.history

omit [Payload P] [SampleLayout P] in
theorem follow_active {old : Option (Track P)}
    (h : ∀ track ∈ old, track.retired = false) : ∀ track ∈ follow limits sample old,
      track.retired = false := by
  cases old with
  | none =>
    rintro track ⟨⟩
    rfl
  | some old =>
    have hold := h old rfl
    unfold follow
    intro track htrack
    dsimp only at htrack
    split at htrack
    · split at htrack <;> cases htrack
      · rfl
      · exact hold
    · split at htrack <;> cases htrack
      · rfl
      · exact hold

/-- A call of a run. -/
def step (valid : P → Bool) (buffer : RemoteBuffer P) (sample : RemoteSample P) : RemoteBuffer P :=
  (buffer.receive valid sample).1

/-- A call that is not refused for capacity. -/
def HasRoom (valid : P → Bool) (buffer : RemoteBuffer P) (sample : RemoteSample P) : Prop :=
  (buffer.receive valid sample).2 ≠ .err .capacity

instance (valid : P → Bool) (buffer : RemoteBuffer P) (sample : RemoteSample P) :
    Decidable (buffer.HasRoom valid sample) :=
  inferInstanceAs (Decidable (_ ≠ _))

omit [SampleLayout P] [BEq P] in
/-- The samples for one index that pass their own checks. -/
def admitted (buffer : RemoteBuffer P) (valid : P → Bool) (arrivals : List (RemoteSample P))
    (index : ℕ) : List (RemoteSample P) :=
  arrivals.filter fun sample =>
    (buffer.checkSample valid sample).isOk && sample.identity.scope.entity.index = index

/-- What a run from `start` has come to. -/
structure Receiving (start : RemoteBuffer P) (valid : P → Bool) (arrivals : List (RemoteSample P))
    (buffer : RemoteBuffer P) : Prop where
  books : Books buffer
  live : Live buffer
  connection : buffer.connection = start.connection
  config : buffer.config = start.config
  tracked : ∀ index, Ordered (start.admitted valid arrivals index) →
    Tracked start.config.limits (start.admitted valid arrivals index) buffer.tracks[index]?

omit [SampleLayout P] [BEq P] in
theorem admitted_snoc
    (hok : start.checkSample valid sample = .ok ()) (arrivals : List (RemoteSample P)) :
    start.admitted valid (arrivals ++ [sample]) sample.identity.scope.entity.index =
      start.admitted valid arrivals sample.identity.scope.entity.index ++ [sample] := by
  have htake : ((start.checkSample valid sample).isOk &&
      sample.identity.scope.entity.index = sample.identity.scope.entity.index) = true := by
    simp [hok, Except.isOk, Except.toBool]
  rw [admitted, admitted, List.filter_append, List.filter_singleton, htake, cond_true]

omit [SampleLayout P] [BEq P] in
/-- A sample that fails its checks, or for another index. -/
theorem admitted_snoc_of_not
    (hnot : ¬(start.checkSample valid sample = .ok () ∧ sample.identity.scope.entity.index = index))
    (arrivals : List (RemoteSample P)) :
    start.admitted valid (arrivals ++ [sample]) index = start.admitted valid arrivals index := by
  have hskip : ¬((start.checkSample valid sample).isOk && sample.identity.scope.entity.index =
      index) = true := by
    intro hmine
    rw [Bool.and_eq_true, decide_eq_true_eq] at hmine
    cases hcheck : start.checkSample valid sample with
    | error error => simp [hcheck, Except.isOk, Except.toBool] at hmine
    | ok _ => exact hnot ⟨hcheck, hmine.2⟩
  rw [admitted, admitted, List.filter_append, List.filter_singleton,
    Bool.eq_false_of_not_eq_true hskip, cond_false, List.append_nil]

theorem Receiving.step (hcount : 1 ≤ start.config.limits.samplesPerEntity)
    (h : Receiving start valid arrivals buffer) (hroom : buffer.HasRoom valid sample) :
    Receiving start valid (arrivals ++ [sample]) (buffer.step valid sample) := by
  have hcheck : buffer.checkSample valid sample = start.checkSample valid sample := by
    unfold checkSample
    rw [h.connection, h.config]
  rcases receive_cases h.books h.live (h.config ▸ hcount) valid sample with
    hfull | ⟨error, herror, hcall⟩ | ⟨hok, -, hfollowed⟩
  · exact absurd hfull hroom
  · rw [RemoteBuffer.step, hcall]
    refine ⟨h.books, h.live, h.connection, h.config, fun index => ?_⟩
    rw [admitted_snoc_of_not fun hok => nomatch (hcheck.symm.trans herror).symm.trans hok.1]
    exact h.tracked index
  · refine ⟨hfollowed.books, fun index track htrack => ?_, hfollowed.connection.trans h.connection,
      hfollowed.config.trans h.config, fun index hordered => ?_⟩
    · rw [RemoteBuffer.step, hfollowed.tracks] at htrack
      split at htrack
      · exact follow_active (fun old hold => h.live _ old hold) track htrack
      · exact h.live _ track htrack
    · rw [RemoteBuffer.step, hfollowed.tracks, h.config]
      by_cases heq : sample.identity.scope.entity.index = index
      · subst heq
        rw [admitted_snoc (hcheck ▸ hok)] at hordered ⊢
        rw [if_pos rfl]
        refine (h.tracked _ fun a ha b hb => ?_).follow hcount hordered
        exact hordered a (List.mem_append_left _ ha) b (List.mem_append_left _ hb)
      · rw [admitted_snoc_of_not fun hmine => heq hmine.2] at hordered ⊢
        rw [if_neg (Ne.symm heq)]
        exact h.tracked index hordered

theorem Receiving.run (hcount : 1 ≤ start.config.limits.samplesPerEntity)
    {before : List (RemoteSample P)} (h : Receiving start valid before buffer)
    (hroom : Meets (RemoteBuffer.step valid) (HasRoom valid) buffer arrivals) :
    Receiving start valid (before ++ arrivals)
      (Lib.run (RemoteBuffer.step valid) buffer arrivals) := by
  induction arrivals generalizing before buffer with
  | nil => rwa [List.append_nil]
  | cons sample arrivals ih =>
    have hnext := ih (h.step hcount hroom.1) hroom.2
    rwa [List.append_assoc, List.singleton_append] at hnext

omit [BEq P] in
theorem Receiving.new (hnew : new connection config = .ok start) (valid : P → Bool) :
    Receiving start valid [] start := by
  obtain ⟨rfl, -, hbooks⟩ := new_eq_ok hnew
  refine ⟨hbooks, fun index track htrack => ?_, rfl, rfl, fun index _ => ?_⟩
  · rw [ExtTreeMap.getElem?_empty] at htrack
    cases htrack
  · rw [ExtTreeMap.getElem?_empty]
    rfl

/-! ### What is left of the arrivals -/

/-- The track of the newest identity, with the latest samples of it. -/
structure Window (limits : Limits) (arrived : List (RemoteSample P)) (track : Track P) : Prop where
  active : track.retired = false
  current : ∃ sample ∈ arrived, sample.identity = track.identity
  newest : ∀ sample ∈ arrived, sample.identity = track.identity ∨
    newerIdentity track.identity sample.identity = true
  sorted : track.samples.Pairwise (·.tick < ·.tick)
  mem_iff : ∀ sample, sample ∈ track.samples ↔ sample ∈ arrived ∧ sample.identity = track.identity ∧
    (∀ other ∈ arrived, other.identity = track.identity →
      other.tick ≤ sample.tick + limits.historyTicks) ∧
    ((ticksOf arrived track.identity).filter (sample.tick < ·)).card < limits.samplesPerEntity

/-- An entity without samples has no track; otherwise its track is the window. -/
def Shows (limits : Limits) (arrived : List (RemoteSample P)) : Option (Track P) → Prop
  | none => arrived = []
  | some track => Window limits arrived track

/-- One payload for each identity and tick. -/
def OnePayload (arrived : List (RemoteSample P)) : Prop :=
  ∀ sample ∈ arrived, ∀ other ∈ arrived, sample.identity = other.identity →
    sample.tick = other.tick → sample = other

omit [Payload P] [SampleLayout P] [BEq P] in
theorem Latest.window {track : Track P}
    (h : Latest limits arrived track) (hpayload : OnePayload arrived) :
    Window limits arrived track := by
  refine ⟨h.active, h.current, h.newest, h.history.sorted, fun sample => ?_⟩
  constructor
  · intro hsample
    obtain ⟨harrived, hidentity⟩ := h.arrived sample hsample
    obtain ⟨hnear, hfew⟩ :=
      (Recent.mem_iff h.history (h.history.known sample hsample)).mp ⟨sample, hsample, rfl⟩
    exact ⟨harrived, hidentity,
      fun other hother hsame => hnear _ (mem_ticksOf.mpr ⟨other, hother, hsame, rfl⟩), hfew⟩
  · rintro ⟨harrived, hidentity, hnear, hfew⟩
    have htick : sample.tick ∈ ticksOf arrived track.identity :=
      mem_ticksOf.mpr ⟨sample, harrived, hidentity, rfl⟩
    obtain ⟨kept, hkept, hsame⟩ := (Recent.mem_iff h.history htick).mpr ⟨fun tick hmem => by
      obtain ⟨other, hother, hsame, rfl⟩ := mem_ticksOf.mp hmem
      exact hnear other hother hsame, hfew⟩
    obtain ⟨hkept', hidentity'⟩ := h.arrived kept hkept
    rwa [hpayload sample harrived kept hkept' (hidentity.trans hidentity'.symm) hsame.symm]

omit [Payload P] [SampleLayout P] [BEq P] in
/-- The window is a function of the set of samples. -/
theorem Window.unique {track track' : Track P}
    (h : Window limits arrived track) (h' : Window limits arrived' track')
    (hsame : ∀ sample, sample ∈ arrived' ↔ sample ∈ arrived) : track' = track := by
  obtain ⟨identity, retired, samples⟩ := track
  obtain ⟨identity', retired', samples'⟩ := track'
  obtain rfl : retired = false := h.active
  obtain rfl : retired' = false := h'.active
  obtain ⟨current, hcurrent, rfl⟩ := h.current
  obtain ⟨current', hcurrent', rfl⟩ := h'.current
  -- each is the newest of the same identities
  have hidentity : current'.identity = current.identity := by
    rcases h.newest current' ((hsame _).mp hcurrent') with heq | hnewer
    · exact heq
    · rcases h'.newest current ((hsame _).mpr hcurrent) with heq | hnewer'
      · exact heq.symm
      · exact absurd hnewer' (newerIdentity_asymm hnewer)
  have hticks : ticksOf arrived' current.identity = ticksOf arrived current.identity := by
    ext tick
    simp only [mem_ticksOf, hsame]
  have hmem : ∀ sample, sample ∈ samples' ↔ sample ∈ samples := by
    intro sample
    have hwindow := h.mem_iff sample
    have hwindow' := h'.mem_iff sample
    simp only [hidentity, hsame, hticks] at hwindow hwindow'
    rw [hwindow, hwindow']
  have hperm : samples'.Perm samples := (List.perm_ext_iff_of_nodup
    (h'.sorted.imp fun hlt heq => (heq ▸ hlt).false) (h.sorted.imp fun hlt heq =>
      (heq ▸ hlt).false)).mpr hmem
  have hsamples : samples' = samples :=
    hperm.eq_of_pairwise (fun _ _ _ _ hlt hgt => absurd hgt hlt.asymm) h'.sorted h.sorted
  rw [hidentity, hsamples]

omit [Payload P] [SampleLayout P] [BEq P] in
theorem Shows.unique {track' : Option (Track P)}
    (h : Shows limits arrived track) (h' : Shows limits arrived' track')
    (hsame : ∀ sample, sample ∈ arrived' ↔ sample ∈ arrived) : track' = track := by
  have hnil : arrived' = [] ↔ arrived = [] := by
    simp only [List.eq_nil_iff_forall_not_mem, hsame]
  cases track with
  | none =>
    cases track' with
    | none => rfl
    | some track' =>
      obtain ⟨sample, hsample, -⟩ := Window.current h'
      rw [hnil.mpr h] at hsample
      cases hsample
  | some track =>
    cases track' with
    | none =>
      obtain ⟨sample, hsample, -⟩ := Window.current h
      rw [hnil.mp h'] at hsample
      cases hsample
    | some track' => rw [Window.unique h h' hsame]

omit [BEq P] in
theorem Receiving.shows (h : Receiving start valid arrivals buffer)
    (hpayload : OnePayload (start.admitted valid arrivals index))
    (hordered : Ordered (start.admitted valid arrivals index)) :
    Shows start.config.limits (start.admitted valid arrivals index) buffer.tracks[index]? := by
  have htracked := h.tracked index hordered
  cases hold : buffer.tracks[index]? with
  | none => rwa [hold] at htracked
  | some track =>
    rw [hold] at htracked
    exact Latest.window htracked hpayload

/-- **Samples in any order.**  In every run of a new buffer that is never refused for capacity, the
accounting is the sums over the tracks; the track of an index is that of the newest identity
received for it, with the latest samples of it; and any other such run that received the same
samples for the index, in any order and number, has the same track. -/
theorem receive_any_order {connection : ℕ} {config : Config} {start : RemoteBuffer P}
    (hnew : new connection config = .ok start) (valid : P → Bool) {arrivals : List (RemoteSample P)}
    (hroom : Meets (RemoteBuffer.step valid) (HasRoom valid) start arrivals) {index : ℕ}
    (hpayload : OnePayload (start.admitted valid arrivals index))
    (hordered : Ordered (start.admitted valid arrivals index)) :
    Books (Lib.run (RemoteBuffer.step valid) start arrivals) ∧
    Shows config.limits (start.admitted valid arrivals index)
      (Lib.run (RemoteBuffer.step valid) start arrivals).tracks[index]? ∧
    ∀ others, Meets (RemoteBuffer.step valid) (HasRoom valid) start others →
      (∀ sample, sample ∈ start.admitted valid others index ↔
        sample ∈ start.admitted valid arrivals index) →
      (Lib.run (RemoteBuffer.step valid) start others).tracks[index]? =
        (Lib.run (RemoteBuffer.step valid) start arrivals).tracks[index]? := by
  have hstart := Receiving.new hnew valid
  obtain ⟨hnewly, hcount, -⟩ := new_eq_ok hnew
  have hconfig : start.config = config := by rw [hnewly]
  replace hcount : 1 ≤ start.config.limits.samplesPerEntity := hconfig ▸ one_le_two.trans hcount
  have h := hstart.run hcount hroom
  have hshows := h.shows hpayload hordered
  refine ⟨h.books, hconfig ▸ hshows, fun others hroom' hsame => ?_⟩
  have h' := hstart.run hcount hroom'
  refine hshows.unique (h'.shows (fun a ha b hb => ?_) fun a ha b hb => ?_) hsame
  · exact hpayload a ((hsame a).mp ha) b ((hsame b).mp hb)
  · exact hordered a ((hsame a).mp ha) b ((hsame b).mp hb)

/-- The sizes of a sample and a track of boxed bytes. -/
instance bytesSampleLayout : SampleLayout (List UInt8) := ⟨80, 88⟩

/-- A buffer of two samples for an entity and a history of ten ticks. -/
def shortConfig : Config := ⟨⟨60, by decide, by decide⟩, 0, ⟨4, 2, 8, 10, 16, 4096⟩⟩

/-- A sample of the entity with index 7. -/
def poseAt (segment tick : ℕ) (value : UInt8) : RemoteSample (List UInt8) :=
  ⟨⟨⟨1, ⟨7, 1⟩, 1, 1⟩, 1, segment⟩, tick, [value]⟩

/-- A change of segment between samples that arrive in order. -/
def inOrder : List (RemoteSample (List UInt8)) :=
  [poseAt 1 3 1, poseAt 2 4 2, poseAt 2 5 3, poseAt 2 30 4, poseAt 2 31 5]

/-- The same samples, the newest first and one of them twice. -/
def outOfOrder : List (RemoteSample (List UInt8)) :=
  [poseAt 2 31 5, poseAt 2 4 2, poseAt 1 3 1, poseAt 2 30 4, poseAt 2 5 3, poseAt 2 31 5]

theorem receive_any_order_reversed :
    ∃ start, new 1 shortConfig = .ok start ∧
      (Lib.run (RemoteBuffer.step fun _ => true) start outOfOrder).tracks[7]? =
        (Lib.run (RemoteBuffer.step fun _ => true) start inOrder).tracks[7]? ∧
      (Lib.run (RemoteBuffer.step fun _ => true) start inOrder).tracks[7]?.map
        (·.samples.map (·.tick)) =
        some [30, 31] := by
  generalize hstart : (⟨1, shortConfig, ∅, ⟨0, 0, 0, 0⟩⟩ : RemoteBuffer (List UInt8)) = start
  have hnew : new 1 shortConfig = .ok start := hstart ▸ rfl
  have hin : start.admitted (fun _ => true) inOrder 7 = inOrder := hstart ▸ by decide +kernel
  have hout : start.admitted (fun _ => true) outOfOrder 7 = outOfOrder := hstart ▸ by decide +kernel
  have hpayload : OnePayload (start.admitted (fun _ => true) inOrder 7) := by
    rw [hin, OnePayload]
    decide +kernel
  have hordered : Ordered (start.admitted (fun _ => true) inOrder 7) := by
    rw [hin, Ordered]
    decide +kernel
  refine ⟨start, hnew,
    (receive_any_order hnew (fun _ => true) ?_ hpayload hordered).2.2 outOfOrder ?_
    fun sample => ?_, ?_⟩
  · exact hstart ▸ by decide +kernel
  · exact hstart ▸ by decide +kernel
  · rw [hin, hout]
    simp only [inOrder, outOfOrder, List.mem_cons, List.not_mem_nil, or_false]
    tauto
  · exact hstart ▸ by decide +kernel

end RemoteBuffer
end Net.Interpolation
