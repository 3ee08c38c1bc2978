import Discordium.Lib.Machine
import Discordium.Net.Codec
import Discordium.Net.Commands.Packing

/-!
# Dreamwake — Client — Retry

`retry_pending_commands` of the client.  Progress of the server can make a command eligible after it
has left the redundancy of newer packets, so once per committed tick the client sends every retained
command of the admission window again that the packets of this frame do not cover.

The loop packs at most eight of the oldest eligible commands at a time and keeps those that did not
fit for the next round; its fuel is the number of eligible commands, and `packRounds_terminates`
says that no more rounds are ever needed.  What the validation of a bundle reads of inputs and
actions is a parameter, as the serializer and the hash are.

**`retry_covers`**: a retry that gets past its guards and succeeds puts every eligible command into
exactly one packet and nothing else into any; what is sent are these packets, each the frame of its
records; the committed ticks of such retries only grow.
-/

namespace Dreamwake.Client
open Net Lib

/-- The serializer, the hash and the game's checks, as far as packets depend on them. -/
structure InputCodec (I A H F : Type) where
  hash : Hasher H F
  encode : Command I A → List (List UInt8)
  validTickInput : I → Bool
  validTickAction : A → Bool
  /-- What the serializer says of a value over its limit. -/
  sizeLimit : String

section codec
variable {I A H F : Type} (codec : InputCodec I A H F)

/-! ### Bundles on the wire -/

/-- The loop over the action edges of a command, with the slots seen so far. -/
def validateEdges (slots : List ℕ) : List (ActionEdge A) → Except CodecError Unit
  | [] => .ok ()
  | edge :: edges =>
    if 8 ≤ edge.slot ∨ edge.slot ∈ slots ∨ !codec.validTickAction edge.action then
      .error (.invalidPayload "invalid action edge")
    else validateEdges (edge.slot :: slots) edges

def validateCommand (command : Command I A) : Except CodecError Unit :=
  if command.owner.connection = 0 ∨ command.owner.epoch = 0 ∨ command.owner.owner.generation = 0
      ∨ command.owner.stream = 0 ∨ command.owner.ownership = 0 ∨ command.sequence = 0
      ∨ command.target = 0 ∨ !codec.validTickInput command.input then
    .error (.invalidPayload "invalid command")
  else validateEdges codec [] command.actions.1

/-- `CommandBundle::validate`. -/
def validateBundle (records : BoundedVec (Command I A) 8) : Except CodecError Unit :=
  if records.1.isEmpty then .error (.invalidPayload "empty command bundle")
  else loop (fun _ command => validateCommand codec command) () records.1

/-- What the serializer writes of a bundle: the number of its records, then each of them. -/
def bundleBytes (records : BoundedVec (Command I A) 8) : List UInt8 :=
  leBytes 8 records.1.length ++ records.1.flatMap fun command => (codec.encode command).flatten

def encodeCommands (records : BoundedVec (Command I A) 8) (epoch sequence : ℕ)
    (limit : FrameLimit) : Except CodecError (List UInt8) :=
  if records.1.any (·.owner.epoch ≠ epoch) then .error .wrongEpoch
  else (encodePayload codec.sizeLimit (validateBundle codec records) (bundleBytes codec records)
      limit.payloadBytes).bind fun payload => encodeFrame ⟨.input, epoch, sequence⟩ payload limit

/-! ### Rounds -/

inductive RetryError where
  /-- `input retry clock range`. -/
  | clockRange
  | command (error : BundleError)
  | codec (error : CodecError)

/-- A bundle with its encoding. -/
structure Packet (I A : Type) where
  records : BoundedVec (Command I A) 8
  bytes : List UInt8

/-- The packet is an input frame of its records: a header under the sequence of one of them, their
number, and each as the serializer writes it. -/
def Packet.Encodes (encode : Command I A → List (List UInt8)) (epoch : ℕ)
    (packet : Packet I A) : Prop :=
  ∃ newest ∈ packet.records.1, ∃ payload,
    payload = leBytes 8 packet.records.1.length ++
      packet.records.1.flatMap (fun command => (encode command).flatten) ∧
    packet.bytes = FrameHeader.bytes ⟨.input, epoch, newest.sequence % 2 ^ 32⟩
      payload.length ++ payload

/-- A bundle that was encoded is a frame of its records within the limit. -/
theorem encodeCommands_ok {records : BoundedVec (Command I A) 8} {epoch : ℕ} {newest : Command I A}
    {limit : FrameLimit} {bytes : List UInt8} (hnewest : newest ∈ records.1)
    (h : encodeCommands codec records epoch (newest.sequence % 2 ^ 32) limit = .ok bytes) :
    bytes.length ≤ limit.1 ∧ Packet.Encodes codec.encode epoch ⟨records, bytes⟩ := by
  unfold encodeCommands at h
  split_ifs at h
  obtain ⟨payload, hpayload, h⟩ := bind_eq_ok.mp h
  obtain rfl := encodePayload_ok hpayload
  obtain ⟨hfits, rfl⟩ := encodeFrame_ok h
  refine ⟨?_, newest, hnewest, _, rfl, rfl⟩
  rw [List.length_append, FrameHeader.length_bytes]
  unfold FrameLimit.payloadBytes at hfits
  have := limit.2.1
  omega

/-- One round of the loop: a packet of the oldest eligible commands, and those that are left. -/
def packRound (stream : OwnerStream) (limit : FrameLimit) (eligible : List (Command I A)) :
    Answer RetryError (Packet I A × List (Command I A)) :=
  let front := eligible.take (min eligible.length 8)
  match front.getLast? with
  | none => .panic
  | some newest =>
    match packRedundant (fingerprint codec.hash codec.encode) newest front.dropLast.reverse 8
        limit.payloadBytes with
    | .panic => .panic
    | .err error => .err (.command error)
    | .ok records =>
      match encodeCommands codec records stream.epoch (newest.sequence % 2 ^ 32) limit with
      | .error error => .err (.codec error)
      | .ok bytes =>
        let included := records.1.map Command.sequence
        .ok (⟨records, bytes⟩, eligible.filter (·.sequence ∉ included))

/-- The packets of the loop with one more in front. -/
def prepend (packet : Packet I A) :
    Answer RetryError (List (Packet I A)) → Answer RetryError (List (Packet I A))
  | .ok packets => .ok (packet :: packets)
  | .err error => .err error
  | .panic => .panic

/-- The loop; nothing when it is not over after `fuel` rounds. -/
def packRounds (stream : OwnerStream) (limit : FrameLimit) :
    ℕ → List (Command I A) → Option (Answer RetryError (List (Packet I A)))
  | _, [] => some (.ok [])
  | 0, _ :: _ => none
  | fuel + 1, command :: eligible =>
    match packRound codec stream limit (command :: eligible) with
    | .panic => some .panic
    | .err error => some (.err error)
    | .ok (packet, left) =>
      (packRounds stream limit fuel left).map (prepend packet)

/-! ### The call -/

/-- A prediction session, as far as the retry reads and writes it. -/
structure Session where
  active : Bool
  recovering : Bool
  /-- `simulation_clock.committed()`. -/
  committed : ℕ
  lastInputRetryCommitted : Option ℕ
  /-- `model.welcome.stream`. -/
  stream : OwnerStream
  /-- `model.welcome.application_frame_bytes`. -/
  applicationFrameBytes : ℕ

structure Runtime (I A : Type) where
  prediction : Option Session
  /-- `renet.is_connected()`. -/
  connected : Bool
  pending : List (Command I A)
  /-- What was sent on the input channel. -/
  sent : List (List UInt8)

/-- `CommandLimits::default().future_ticks`. -/
def futureTicks : ℕ := CommandLimits.default.futureTicks

/-- The command is of the current stream, in the admission window, and not covered by the packets of
this frame. -/
def eligibleNow (session : Session) (covered : List ℕ) (command : Command I A) : Bool :=
  command.owner = session.stream ∧ session.committed < command.target ∧
    command.target ≤ session.committed + futureTicks ∧ command.sequence ∉ covered

/-- The session of a call that its guards let through. -/
def retryGuards (runtime : Runtime I A) : Option Session :=
  runtime.prediction.filter fun session =>
    session.active ∧ !session.recovering ∧ runtime.connected ∧
      !session.lastInputRetryCommitted.any (session.committed ≤ ·)

/-- The rest of `retry_pending_commands`, for a session its guards let through. -/
def retryEligible (runtime : Runtime I A) (session : Session) (covered : List ℕ) :
    Option (Runtime I A × Answer RetryError Unit) :=
  match checkedAdd 64 session.committed futureTicks with
  | none => some (runtime, .err .clockRange)
  | some _ =>
    let eligible := (runtime.pending.filter (eligibleNow session covered)).take futureTicks
    match FrameLimit.new session.applicationFrameBytes with
    | .error error => some (runtime, .err (.codec error))
    | .ok limit =>
      (packRounds codec session.stream limit eligible.length eligible).map fun
        | .panic => (runtime, .panic)
        | .err error => (runtime, .err error)
        | .ok packets =>
          ({ runtime with
              prediction := some { session with lastInputRetryCommitted := some session.committed }
              sent := runtime.sent ++ packets.map Packet.bytes }, .ok ())

/-- `retry_pending_commands`; nothing when its loop is not over. -/
def retryPendingCommands (runtime : Runtime I A) (covered : List ℕ) :
    Option (Runtime I A × Answer RetryError Unit) :=
  match retryGuards runtime with
  | none => some (runtime, .ok ())
  | some session => retryEligible codec runtime session covered

end codec

/-! ### The loop -/

section rounds
variable {I A H F : Type} {codec : InputCodec I A H F} {stream : OwnerStream} {limit : FrameLimit}
  {eligible left : List (Command I A)} {packet : Packet I A}

/-- What one round does: the packet has some of the eligible commands, with one of them for sure,
and exactly the others are left. -/
structure Round (codec : InputCodec I A H F) (stream : OwnerStream) (limit : FrameLimit)
    (eligible : List (Command I A)) (packet : Packet I A) (left : List (Command I A)) : Prop where
  inhabited : ∃ command, command ∈ eligible ∧ command ∈ packet.records.1
  subset : packet.records.1 ⊆ eligible
  distinct : (packet.records.1.map Command.sequence).Nodup
  left_eq : left = eligible.filter (·.sequence ∉ packet.records.1.map Command.sequence)
  payload_le : 8 + load (encodedSize codec.encode) packet.records.1 ≤ limit.payloadBytes
  bytes_le : packet.bytes.length ≤ limit.1
  encodes : packet.Encodes codec.encode stream.epoch

theorem packRound_ok (h : packRound codec stream limit eligible = .ok (packet, left)) :
    Round codec stream limit eligible packet left := by
  unfold packRound at h
  dsimp only at h
  split at h
  · cases h
  rename_i newest hnewest
  split at h <;> try cases h
  rename_i records hpack
  split at h <;> cases h
  rename_i bytes hbytes
  have hrecords := packRedundant_ok (by decide) hpack
  obtain ⟨taken, htaken, hsub⟩ := hrecords.newest_first
  have hfront : ∀ c ∈ eligible.take (min eligible.length 8), c ∈ eligible :=
    fun c => List.mem_of_mem_take
  have hmem : newest ∈ eligible := hfront newest (List.mem_of_getLast? hnewest)
  have hpacked : newest ∈ records.1 := by rw [htaken]; exact List.mem_cons_self
  obtain ⟨hframe, hencodes⟩ := encodeCommands_ok codec hpacked hbytes
  refine ⟨⟨newest, hmem, hpacked⟩, ?_, hrecords.distinct, rfl, hrecords.bytes_le, hframe, hencodes⟩
  rw [htaken]
  rintro c (_ | ⟨_, hc⟩)
  · exact hmem
  · exact hfront c (List.mem_of_mem_dropLast (List.mem_reverse.mp (hsub.subset hc)))

theorem Round.length_lt (h : Round codec stream limit eligible packet left) :
    left.length < eligible.length := by
  obtain ⟨command, hmem, hpacked⟩ := h.inhabited
  rw [h.left_eq, List.length_filter_lt_length_iff_exists]
  exact ⟨command, hmem, by simpa using ⟨command, hpacked, rfl⟩⟩

/-- The commands of the packet and those that are left are the eligible ones. -/
theorem Round.perm (h : Round codec stream limit eligible packet left)
    (hnodup : (eligible.map Command.sequence).Nodup) :
    (packet.records.1 ++ left).Perm eligible := by
  have hinj : ∀ c ∈ eligible, ∀ c' ∈ eligible, c.sequence = c'.sequence → c = c' :=
    fun c hc c' hc' => List.inj_on_of_nodup_map hnodup hc hc'
  have hleft : left.Nodup := by
    rw [h.left_eq]
    exact (List.Nodup.of_map _ hnodup).filter _
  refine (List.perm_ext_iff_of_nodup ((List.Nodup.of_map _ h.distinct).append hleft ?_)
    (List.Nodup.of_map _ hnodup)).mpr fun c => ?_
  · intro c hc hc'
    rw [h.left_eq, List.mem_filter, decide_eq_true_eq] at hc'
    exact hc'.2 (List.mem_map_of_mem hc)
  · rw [List.mem_append]
    refine ⟨fun hc => hc.elim (fun hc => h.subset hc) fun hc => ?_, fun hc => ?_⟩
    · rw [h.left_eq] at hc
      exact List.mem_of_mem_filter hc
    · by_cases hincluded : c.sequence ∈ packet.records.1.map Command.sequence
      · obtain ⟨c', hc', hsame⟩ := List.mem_map.mp hincluded
        exact .inl (hinj c' (h.subset hc') c hc hsame ▸ hc')
      · rw [h.left_eq]
        exact .inr (List.mem_filter.mpr ⟨hc, decide_eq_true hincluded⟩)

/-- **The loop terminates**: it is over after as many rounds as there are eligible commands, and
more fuel changes nothing. -/
theorem packRounds_terminates (codec : InputCodec I A H F) (stream : OwnerStream)
    (limit : FrameLimit) (eligible : List (Command I A)) :
    ∃ answer, ∀ fuel, eligible.length ≤ fuel → packRounds codec stream limit fuel eligible =
      some answer := by
  induction hn : eligible.length using Nat.strong_induction_on generalizing eligible with
  | _ n ih =>
    subst hn
    cases eligible with
    | nil => exact ⟨.ok [], fun fuel _ => by cases fuel <;> rfl⟩
    | cons command eligible =>
      suffices hrounds : ∃ answer, ∀ fuel, eligible.length ≤ fuel →
          packRounds codec stream limit (fuel + 1) (command :: eligible) = some answer by
        obtain ⟨answer, hanswer⟩ := hrounds
        refine ⟨answer, fun fuel hfuel => ?_⟩
        cases fuel with
        | zero => cases hfuel
        | succ fuel => exact hanswer fuel (Nat.le_of_succ_le_succ hfuel)
      cases hround : packRound codec stream limit (command :: eligible) with
      | panic => exact ⟨.panic, fun fuel _ => by simp only [packRounds, hround]⟩
      | err error => exact ⟨.err error, fun fuel _ => by simp only [packRounds, hround]⟩
      | ok value =>
        obtain ⟨packet, left⟩ := value
        have hlt := (packRound_ok hround).length_lt
        obtain ⟨answer, hanswer⟩ := ih left.length hlt left rfl
        refine ⟨prepend packet answer, fun fuel hfuel => ?_⟩
        have hleft : left.length ≤ fuel := (Nat.le_of_lt_succ hlt).trans hfuel
        simp only [packRounds, hround, hanswer fuel hleft, Option.map_some]

variable {packets : List (Packet I A)}

theorem prepend_ok {answer : Answer RetryError (List (Packet I A))}
    (h : prepend packet answer = .ok packets) :
    ∃ rest, answer = .ok rest ∧ packets = packet :: rest := by
  cases answer with
  | ok rest => exact ⟨rest, rfl, (Answer.ok.inj h).symm⟩
  | err => cases h
  | panic => cases h

theorem packRounds_ok {fuel : ℕ} (hnodup : (eligible.map Command.sequence).Nodup)
    (h : packRounds codec stream limit fuel eligible = some (.ok packets)) :
    (packets.flatMap fun packet => packet.records.1).Perm eligible ∧
      ∀ packet ∈ packets, 8 + load (encodedSize codec.encode) packet.records.1 ≤
        limit.payloadBytes ∧ packet.bytes.length ≤ limit.1 ∧
          packet.Encodes codec.encode stream.epoch := by
  induction fuel generalizing eligible packets with
  | zero =>
    cases eligible with
    | nil =>
      cases h
      exact ⟨.nil, nofun⟩
    | cons => cases h
  | succ fuel ih =>
    cases eligible with
    | nil =>
      cases h
      exact ⟨.nil, nofun⟩
    | cons command eligible =>
      rw [packRounds] at h
      split at h <;> try cases h
      rename_i packet left hround
      obtain ⟨answer, hleft, hanswer⟩ := Option.map_eq_some_iff.mp h
      obtain ⟨packets, rfl, rfl⟩ := prepend_ok hanswer
      have hstep := packRound_ok hround
      have hnodup' : (left.map Command.sequence).Nodup := by
        rw [hstep.left_eq]
        exact hnodup.sublist (List.filter_sublist.map _)
      obtain ⟨hperm, hbounds⟩ := ih hnodup' hleft
      refine ⟨?_, ?_⟩
      · rw [List.flatMap_cons]
        exact (hperm.append_left _).trans (hstep.perm hnodup)
      · rintro p (_ | ⟨_, hp⟩)
        · exact ⟨hstep.payload_le, hstep.bytes_le, hstep.encodes⟩
        · exact hbounds p hp

end rounds

/-! ### One retry -/

section retry
variable {I A H F : Type} {codec : InputCodec I A H F} {runtime runtime' : Runtime I A}
  {session : Session} {covered : List ℕ}

theorem retryGuards_some (h : retryGuards runtime = some session) :
    runtime.prediction = some session ∧ session.recovering = false ∧
      ∀ last, session.lastInputRetryCommitted = some last → last < session.committed := by
  obtain ⟨hsome, hguards⟩ := Option.filter_eq_some_iff.mp h
  simp only [decide_eq_true_eq, Bool.not_eq_true'] at hguards
  refine ⟨hsome, hguards.2.1, fun last hlast => ?_⟩
  have hany := hguards.2.2.2
  rw [hlast, Option.any_some, decide_eq_false_iff_not] at hany
  exact not_le.mp hany

/-- Distinct targets in the window are no more than the window has ticks. -/
theorem length_eligible_le (session : Session) (covered : List ℕ) {pending : List (Command I A)}
    (htarget : (pending.map Command.target).Nodup) :
    (pending.filter (eligibleNow session covered)).length ≤ futureTicks := by
  have hnodup : ((pending.filter (eligibleNow session covered)).map Command.target).Nodup :=
    htarget.sublist (List.filter_sublist.map _)
  have hwindow : ((pending.filter (eligibleNow session covered)).map Command.target).toFinset ⊆
      Finset.Ioc session.committed (session.committed + futureTicks) := by
    intro tick htick
    obtain ⟨command, hmem, rfl⟩ := List.mem_map.mp (List.mem_toFinset.mp htick)
    have heligible := (List.mem_filter.mp hmem).2
    simp only [eligibleNow, decide_eq_true_eq] at heligible
    exact Finset.mem_Ioc.mpr ⟨heligible.2.1, heligible.2.2.1⟩
  have hcard := Finset.card_le_card hwindow
  rw [List.toFinset_card_of_nodup hnodup, List.length_map, Nat.card_Ioc,
    Nat.add_sub_cancel_left] at hcard
  exact hcard

/-- What a retry does that gets past its guards: it fails and changes nothing, or it sends its
packets and marks the committed tick. -/
theorem retryEligible_cases (codec : InputCodec I A H F) (runtime : Runtime I A) (session : Session)
    (covered : List ℕ) :
    (∃ answer, retryEligible codec runtime session covered = some (runtime, answer) ∧
      answer ≠ .ok ()) ∨
    ∃ limit packets, FrameLimit.new session.applicationFrameBytes = .ok limit ∧
      packRounds codec session.stream limit
          ((runtime.pending.filter (eligibleNow session covered)).take futureTicks).length
          ((runtime.pending.filter (eligibleNow session covered)).take futureTicks) =
            some (.ok packets) ∧
      retryEligible codec runtime session covered = some
        ({ runtime with
            prediction := some { session with lastInputRetryCommitted := some session.committed }
            sent := runtime.sent ++ packets.map Packet.bytes }, .ok ()) := by
  unfold retryEligible
  split
  · exact .inl ⟨_, rfl, nofun⟩
  dsimp only
  split
  · exact .inl ⟨_, rfl, nofun⟩
  · rename_i limit hlimit
    obtain ⟨answer, hanswer⟩ := packRounds_terminates codec session.stream limit
      ((runtime.pending.filter (eligibleNow session covered)).take futureTicks)
    rw [hanswer _ le_rfl, Option.map_some]
    cases answer with
    | panic => exact .inl ⟨_, rfl, nofun⟩
    | err error => exact .inl ⟨_, rfl, nofun⟩
    | ok packets => exact .inr ⟨limit, packets, hlimit, hanswer _ le_rfl, rfl⟩

end retry

/-! ### Runs of a session -/

/-- What happens to a session between and at its retries. -/
inductive Call (I A : Type) where
  | retry (covered : List ℕ)
  /-- A proof of progress reaches the simulation clock. -/
  | commit (tick : ℕ)
  | activate (active : Bool)
  | connect (connected : Bool)
  /-- Commands are issued or retired. -/
  | queue (pending : List (Command I A))
  | recover

def Session.recover (session : Session) : Session :=
  { session with active := false, recovering := true, lastInputRetryCommitted := none }

section runs
variable {I A H F : Type} (codec : InputCodec I A H F)

/-- One call; the rounds that got past the guards and succeeded are noted by their committed
tick. -/
def step (s : Runtime I A × List ℕ) : Call I A → Runtime I A × List ℕ
  | .retry covered =>
    match retryPendingCommands codec s.1 covered with
    | some (runtime, .ok ()) => (runtime, s.2 ++ ((retryGuards s.1).map (·.committed)).toList)
    | some (runtime, _) => (runtime, s.2)
    | none => s
  | .commit tick =>
    ({ s.1 with
        prediction := s.1.prediction.map fun session =>
          { session with committed := max session.committed tick } }, s.2)
  | .activate active =>
    ({ s.1 with prediction := s.1.prediction.map fun session => { session with active } }, s.2)
  | .connect connected => ({ s.1 with connected }, s.2)
  | .queue pending => ({ s.1 with pending }, s.2)
  | .recover => ({ s.1 with prediction := s.1.prediction.map Session.recover }, s.2)

/-- The committed ticks of the rounds only grow, and a session that can retry has marked the last of
them. -/
structure Marked (s : Runtime I A × List ℕ) : Prop where
  increasing : s.2.Pairwise (· < ·)
  marked : ∀ session, s.1.prediction = some session → session.recovering = true ∨
    ∀ tick ∈ s.2, ∃ last, session.lastInputRetryCommitted = some last ∧ tick ≤ last

variable {s : Runtime I A × List ℕ}

/-- A call that rewrites the session but neither its mark nor its recovery. -/
theorem Marked.of_session (h : Marked s) {runtime : Runtime I A}
    (hsession : ∀ session', runtime.prediction = some session' → ∃ session, s.1.prediction =
      some session ∧ (session'.recovering = true ∨ session'.recovering = session.recovering ∧
        session'.lastInputRetryCommitted = session.lastInputRetryCommitted)) :
          Marked (runtime, s.2) where
  increasing := h.increasing
  marked session' hsession' := by
    obtain ⟨session, hsome, hrecovering | ⟨hrecovering, hlast⟩⟩ := hsession session' hsession'
    · exact .inl hrecovering
    · rw [hrecovering, hlast]
      exact h.marked session hsome

theorem Marked.retry (h : Marked s) (covered : List ℕ) :
    Marked (step codec s (.retry covered)) := by
  rw [step, retryPendingCommands]
  cases hguards : retryGuards s.1 with
  | none =>
    simp only [Option.map_none, Option.toList_none, List.append_nil]
    exact h
  | some session =>
    obtain ⟨hsome, hrecovering, hlast⟩ := retryGuards_some hguards
    obtain ⟨answer, hfail, hne⟩ | ⟨limit, packets, -, -, hok⟩ :=
      retryEligible_cases codec s.1 session covered
    · cases answer with
      | ok => exact absurd rfl hne
      | err | panic =>
        simp only [hfail]
        exact h
    · simp only [hok, Option.map_some, Option.toList_some]
      have hearlier : ∀ tick ∈ s.2, tick < session.committed := by
        intro tick htick
        obtain hrecovers | hmarked := h.marked session hsome
        · rw [hrecovering] at hrecovers
          cases hrecovers
        · obtain ⟨last, hmark, hle⟩ := hmarked tick htick
          exact hle.trans_lt (hlast last hmark)
      refine ⟨?_, fun session' hsession' => .inr fun tick htick => ?_⟩
      · refine List.pairwise_append.mpr ⟨h.increasing, List.pairwise_singleton _ _,
          fun tick htick later hlater => ?_⟩
        rw [List.mem_singleton.mp hlater]
        exact hearlier tick htick
      · cases hsession'
        refine ⟨session.committed, rfl, ?_⟩
        rcases List.mem_append.mp htick with htick | htick
        · exact (hearlier tick htick).le
        · exact (List.mem_singleton.mp htick).le

theorem Marked.step (h : Marked s) (c : Call I A) :
    Marked (Client.step codec s c) := by
  cases c with
  | retry covered => exact h.retry codec covered
  | commit | activate | recover =>
    refine h.of_session fun session' hsession' => ?_
    obtain ⟨session, hsome, rfl⟩ := Option.map_eq_some_iff.mp hsession'
    exact ⟨session, hsome, by simp [Session.recover]⟩
  | connect | queue =>
      exact h.of_session fun session' hsession' => ⟨session', hsession', .inr ⟨rfl, rfl⟩⟩

/-- **A retry covers every eligible command once.**  Its loop is always over.  When it gets past its
guards and succeeds, the packets it sends have every pending command of the stream in the admission
window that is not covered, exactly once, and nothing else; each is the frame of its records and
within the limit.  And in every run of the session, the committed ticks of such retries only
grow. -/
theorem retry_covers (runtime : Runtime I A) (covered : List ℕ)
    (hsequence : (runtime.pending.map Command.sequence).Nodup)
    (htarget : (runtime.pending.map Command.target).Nodup) :
    (∃ result, retryPendingCommands codec runtime covered = some result) ∧
    (∀ session runtime', retryGuards runtime = some session →
      retryPendingCommands codec runtime covered = some (runtime', .ok ()) →
      ∃ (limit : FrameLimit) (packets : List (Packet I A)),
        FrameLimit.new session.applicationFrameBytes = .ok limit ∧
        runtime'.sent = runtime.sent ++ packets.map Packet.bytes ∧
        (packets.flatMap fun packet => packet.records.1).Nodup ∧
        (∀ command, command ∈ (packets.flatMap fun packet => packet.records.1) ↔
          command ∈ runtime.pending ∧ command.owner = session.stream ∧
            session.committed < command.target ∧ command.target ≤ session.committed + futureTicks ∧
            command.sequence ∉ covered) ∧
        ∀ packet ∈ packets, packet.records.1.length ≤ 8 ∧
          8 + load (encodedSize codec.encode) packet.records.1 ≤ limit.payloadBytes ∧
          packet.bytes.length ≤ limit.1 ∧ packet.Encodes codec.encode session.stream.epoch) ∧
    ∀ calls : List (Call I A), (run (step codec) (runtime, []) calls).2.Pairwise (· < ·) := by
  refine ⟨?_, fun session runtime' hguards hok => ?_, fun calls => ?_⟩
  · unfold retryPendingCommands
    split
    · exact ⟨_, rfl⟩
    · rename_i session _
      obtain ⟨answer, h, -⟩ | ⟨limit, packets, -, -, h⟩ :=
        retryEligible_cases codec runtime session covered
      · exact ⟨_, h⟩
      · exact ⟨_, h⟩
  · simp only [retryPendingCommands, hguards] at hok
    obtain ⟨answer, h, hne⟩ | ⟨limit, packets, hlimit, hpackets, h⟩ :=
      retryEligible_cases codec runtime session covered
    · cases h.symm.trans hok
      exact absurd rfl hne
    cases h.symm.trans hok
    rw [List.take_of_length_le (length_eligible_le session covered htarget)] at hpackets
    have hnodup :
        ((runtime.pending.filter (eligibleNow session covered)).map Command.sequence).Nodup :=
      hsequence.sublist (List.filter_sublist.map _)
    obtain ⟨hperm, hbounds⟩ := packRounds_ok hnodup hpackets
    refine ⟨limit, packets, hlimit, rfl, hperm.nodup_iff.mpr (List.Nodup.of_map _ hnodup),
      fun command => ?_, fun packet hpacket => ⟨packet.records.2, hbounds packet hpacket⟩⟩
    rw [hperm.mem_iff, List.mem_filter, eligibleNow, decide_eq_true_eq]
  · exact (run_invariant (I := Marked) (fun s c h => h.step codec c) ⟨.nil,
      fun _ _ => .inr fun _ h => absurd h List.not_mem_nil⟩
      calls).increasing

end runs

/-- A codec of commands that are one write of as many bytes as their input says. -/
def sizedCodec : InputCodec ℕ Unit (List UInt8) (List UInt8) :=
  ⟨plainHash, sizedEncode, fun _ => true, fun _ => true, "size limit"⟩

/-- Three commands wait; the last is still too far ahead of the committed tick. -/
def sizedRuntime : Runtime ℕ Unit where
  prediction := some ⟨true, false, 1, none, ⟨1, 1, 1, ⟨1, 1⟩, 1⟩, 64⟩
  connected := true
  pending := [sized 2 10, sized 3 25, sized 14 10]
  sent := []

/-- Both commands in the window are sent, in frames of their own, and the third is not. -/
theorem retry_covers_sized :
    ∃ (runtime : Runtime ℕ Unit) (packets : List (Packet ℕ Unit)),
      retryPendingCommands sizedCodec sizedRuntime [] = some (runtime, .ok ()) ∧
      runtime.sent = packets.map Packet.bytes ∧ runtime.sent.map List.length = [57, 42] ∧
      (∀ packet ∈ packets, packet.Encodes sizedEncode 1) ∧
      sized 2 10 ∈ (packets.flatMap fun packet => packet.records.1) ∧
      sized 3 25 ∈ (packets.flatMap fun packet => packet.records.1) ∧
      sized 14 10 ∉ (packets.flatMap fun packet => packet.records.1) := by
  obtain ⟨limit, packets, -, hsent, -, hmem, hpackets⟩ :=
    (retry_covers sizedCodec sizedRuntime [] (by decide)
    (by decide)).2.1 _ _ rfl rfl
  refine ⟨_, packets, rfl, hsent, by decide +kernel,
    fun packet hpacket => (hpackets packet hpacket).2.2.2, (hmem _).mpr ?_, (hmem _).mpr ?_,
    fun h => absurd ((hmem _).mp h) ?_⟩ <;> decide

end Dreamwake.Client
