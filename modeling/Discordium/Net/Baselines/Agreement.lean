import Discordium.Net.Baselines.Wire

/-!
# Net — Baselines — Agreement

Every action keeps a link consistent, and what follows for every run: a client holds the payloads
the server transmitted, it still holds whatever the server may encode against, and no packet of the
server is ever refused as unknown, conflicting or malformed.
-/

namespace Net.Baselines
open Lib

variable {P : Type}

/-! ### The other actions -/

section actions
variable [Payload P] {codec : BaselineCodec P} {context : BaselineContext} {link : Link P}

theorem Link.Consistent.acknowledge (h : link.Consistent codec context) {receipt : BaselineReceipt}
    (hr : receipt ∈ link.receipts) :
    Link.Consistent codec context { link with server := (link.server.acknowledge receipt).1 } := by
  simp only [ServerBaselines.acknowledge]
  split
  · exact h
  have hstates : Cache.states { link.server.cache with
      entries := ServerBaselines.markDecoded receipt link.server.cache.entries } =
      link.server.cache.states :=
    markDecoded_states receipt link.server.cache.entries
  have hs := h.server_sound
  exact
    { h with
      server_sound :=
        { held := by rw [hstates]; exact hs.held
          current := by rw [hstates]; exact hs.current
          unretired := by rw [hstates]; exact hs.unretired
          ascending := by rw [hstates]; exact hs.ascending
          latest_logged := hs.latest_logged
          last_latest := by rw [hstates]; exact hs.last_latest
          latest_held := by rw [hstates]; exact hs.latest_held }
      decoded := by
        intro e he hd
        rcases mem_markDecoded he with he | rfl
        · exact h.decoded e he hd
        · exact hr }

/-- A client that keeps its cache keeps the link consistent. -/
theorem Link.Consistent.client (h : link.Consistent codec context) {client' : ClientBaselines P}
    (hcache : client'.cache = link.client.cache) :
    Link.Consistent codec context { link with client := client' } :=
  { h with
    client_context := by rw [hcache]; exact h.client_context
    limits_eq := by rw [hcache]; exact h.limits_eq
    client_sound := by rw [hcache]; exact h.client_sound
    generation_le := by rw [hcache]; exact h.generation_le
    retired_le := by rw [hcache]; exact h.retired_le
    retained := by rw [hcache]; exact h.retained }

theorem Link.Consistent.retire (h : link.Consistent codec context) {request : BaselineRetirement}
    (hreq : link.server.cache.retirement request = none) :
    Link.Consistent codec context
      { link with
        server := ⟨link.server.cache.discard request.through⟩, fences :=
          link.fences ++ [request] } := by
  obtain ⟨hctx, hgen, hlim, hlat, -, hent⟩ :=
    Cache.discard_frame link.server.cache request.through
  have hret := Cache.discard_retired link.server.cache request.through
  exact
    { h with
      server_context := hctx.trans h.server_context
      limits_eq := h.limits_eq.trans hlim.symm
      generation_pos := by rw [hgen]; exact h.generation_pos
      server_sound := h.server_sound.retire hreq
      newest := by rw [hlat]; exact h.newest
      generation_le := by rw [hgen]; exact h.generation_le
      retired_le := by rw [hret]; exact h.retired_le.trans (le_max_left _ _)
      fences_le := by
        intro f hf
        rw [hret]
        rcases List.mem_append.mp hf with hf | hf
        · exact (h.fences_le f hf).trans (le_max_left _ _)
        · rw [List.mem_singleton.mp hf]
          exact le_max_right _ _
      resets_le := by rw [hgen]; exact h.resets_le
      decoded := fun e he => h.decoded e (hent e he)
      genuine := by rw [hlim]; exact h.genuine }

/-- A discard below the retired mark drops no promise. -/
theorem Retained.discard {log : List (BaselineState P)} {cache : Cache P} {r : BaselineReceipt}
    (h : Retained log cache r) (through : ℕ) : Retained log (cache.discard through) r := by
  obtain ⟨-, hgen, -, -, hclosed, -⟩ := Cache.discard_frame cache through
  refine ⟨h.logged, by rw [hgen]; exact h.generation_le, fun hopen heq => ?_⟩
  rw [hclosed] at hopen
  rw [hgen] at heq
  rw [Cache.discard_retired]
  rcases h.kept hopen heq with hle | ⟨s, hs, rfl⟩
  · exact .inl (hle.trans (le_max_left _ _))
  · by_cases hle : s.receipt.snapshot ≤ max cache.retired through
    · exact .inl hle
    · right
      refine ⟨s, ?_, rfl⟩
      simp only [not_le, max_lt_iff] at hle
      by_cases hlt : cache.retired < through
      · rw [Cache.discard_states hlt, List.mem_filter]
        exact ⟨hs, by simpa using hle.2⟩
      · rwa [show cache.discard through = cache from if_pos (not_lt.mp hlt)]

section
variable (h : link.Consistent codec context)
include h

theorem Link.Consistent.acknowledgeRetirement
    {fence : BaselineRetirement} (hf : fence ∈ link.fences) :
    Link.Consistent codec context
      { link with client := (link.client.acknowledgeRetirement fence).1 } := by
  simp only [ClientBaselines.acknowledgeRetirement]
  split
  · exact h
  split
  · exact h
  split
  · exact h
  split
  · exact h
  rename_i hret
  obtain ⟨hctx, hgen, hlim, -, -, -⟩ := Cache.discard_frame link.client.cache fence.through
  exact
    { h with
      client_context := hctx.trans h.client_context
      limits_eq := hlim.trans h.limits_eq
      client_sound := h.client_sound.retire hret
      generation_le := by rw [hgen]; exact h.generation_le
      retired_le := by
        rw [Cache.discard_retired]
        exact max_le h.retired_le (h.fences_le fence hf)
      retained := fun r hr => (h.retained r hr).discard fence.through }

theorem Link.Consistent.beginReset {generation : ℕ}
    (hlt : link.server.cache.generation < generation) :
    Link.Consistent codec context
      { link with
        server := ⟨{ link.server.cache.clear with generation }⟩
        resets := link.resets ++ [⟨link.server.cache.context, generation⟩] } :=
  { h with
    generation_pos := by
      show generation ≠ 0
      omega
    server_sound := h.server_sound.reset hlt
    generation_le := h.generation_le.trans hlt.le
    resets_le := by
      intro r hr
      rcases List.mem_append.mp hr with hr | hr
      · exact (h.resets_le r hr).trans hlt.le
      · rw [List.mem_singleton.mp hr]
    decoded := by
      intro e he
      cases he }

theorem Link.Consistent.applyReset {reset : BaselineReset} (hr : reset ∈ link.resets) :
    Link.Consistent codec context { link with client := (link.client.applyReset reset).1 } := by
  simp only [ClientBaselines.applyReset]
  rcases Cache.reset_cases link.client.cache reset with heq | ⟨heq, hgen⟩ | ⟨heq, hlt⟩
  · rw [heq]
    exact h
  · rw [heq]
    simp only [hgen, ne_eq, not_true_eq_false, if_false]
    exact h
  · rw [heq]
    simp only [hlt.ne', ne_eq, not_false_eq_true, if_true]
    exact
      { h with
        client_sound := h.client_sound.reset hlt
        generation_le := h.resets_le reset hr
        retained := by
          intro r hr
          have hret := h.retained r hr
          refine ⟨hret.logged, hret.generation_le.trans hlt.le, fun _ hgen => ?_⟩
          have := hret.generation_le
          simp only at hgen
          omega }

theorem Link.Consistent.closeServer :
    Link.Consistent codec context { link with server := link.server.close } :=
  { h with
    server_sound := h.server_sound.close
    decoded := by
      intro e he
      cases he }

theorem Link.Consistent.closeClient :
    Link.Consistent codec context { link with client := link.client.close } :=
  { h with
    client_sound := h.client_sound.close
    retained := fun r hr =>
      { h.retained r hr with
        kept := by
          intro hopen
          cases hopen } }

end

end actions

/-! ### Reception on the link -/

section link
variable [DecidableEq P] [Payload P] {codec : BaselineCodec P} {context : BaselineContext}
variable {link : Link P}

omit [DecidableEq P] in
/-- The client returns a receipt for a state it keeps. -/
theorem Link.Consistent.receipt (h : link.Consistent codec context) {r : BaselineReceipt}
    (hr : Retained link.transmitted link.client.cache r) :
    Link.Consistent codec context { link with receipts := link.receipts ++ [r] } :=
  { h with
    retained := by
      intro r' hr'
      rcases List.mem_append.mp hr' with hr' | hr'
      · exact h.retained r' hr'
      · rwa [List.mem_singleton.mp hr']
    decoded := fun e he hd => List.mem_append_left _ (h.decoded e he hd)
    genuine := fun p hp =>
      let ⟨t, ht⟩ := h.genuine p hp
      ⟨t, ht.mono (fun _ ht => ht) fun _ hr => List.mem_append_left _ hr⟩ }

variable {t : BaselineState P} {client' client : ClientBaselines P} {packet : BaselinePacket}

/-- The client inserts a transmitted state. -/
theorem Link.Consistent.insert (h : link.Consistent codec context)
    (ht : t ∈ link.transmitted) (hacc : link.client.cache.Accepts t)
    (hcache : client'.cache = link.client.cache.insert t true) :
    Link.Consistent codec context { link with client := client' } :=
  { h with
    client_context := by rw [hcache]; exact h.client_context
    limits_eq := by rw [hcache]; exact h.limits_eq
    client_sound := by rw [hcache]; exact h.client_sound.insert hacc ht true
    generation_le := by rw [hcache]; exact h.generation_le
    retired_le := by rw [hcache]; exact h.retired_le
    retained := by
      intro r hr
      rw [hcache]
      refine { h.retained r hr with kept := fun hopen hgen => ?_ }
      refine ((h.retained r hr).kept hopen hgen).imp_right ?_
      rintro ⟨s, hs, heq⟩
      exact ⟨s, by rw [Cache.insert_states]; exact List.mem_append_left _ hs, heq⟩ }

omit [DecidableEq P] in
/-- A packet is as genuine in the receiver's buffer as in the sender's. -/
theorem Link.Consistent.arrived (h : link.Consistent codec context) (hcodec : codec.Faithful)
    (hp : packet ∈ link.packets) (spare : ℕ) :
    ∃ t, t.receipt = packet.target ∧ Arrived codec link (packet.arrive spare) t := by
  obtain ⟨t, ht⟩ := h.genuine packet hp
  exact ⟨t, ht.target, hcodec, ht.logged, ht.target, ht.fits, ht.encoded⟩

theorem Link.Consistent.receive (h : link.Consistent codec context) (hcodec : codec.Faithful)
    (hp : packet ∈ link.packets) (spare : ℕ) (validate : P → Bool) :
    Link.Consistent codec context
      (match link.client.receive (packet.arrive spare) codec validate with
      | (client, .ok receipt) => { link with client, receipts := link.receipts ++ [receipt] }
      | (client, .error _) => { link with client }) := by
  obtain ⟨t, -, ha⟩ := h.arrived hcodec hp spare
  generalize hrecv : link.client.receive (packet.arrive spare) codec validate = out
  obtain ⟨client', answer⟩ := out
  cases ha.receive h validate hrecv with
  | refused error hcache herror => exact h.client hcache
  | held hcache hadm hmem =>
    refine (h.client hcache).receipt ⟨⟨t, ha.genuine.logged, rfl⟩, ?_, fun _ _ => .inr ⟨t, ?_, rfl⟩⟩
    · rw [hcache]
      exact hadm.generation.le
    · rw [hcache]
      exact hmem
  | inserted hcache hacc =>
    refine (h.insert ha.genuine.logged hacc hcache).receipt
      ⟨⟨t, ha.genuine.logged, rfl⟩, ?_, fun _ _ => .inr ⟨t, ?_, rfl⟩⟩
    · rw [hcache]
      exact hacc.admits.generation.le
    · rw [hcache, Cache.insert_states]
      simp

/-! ### Runs -/

/-- **Step lemma.**  Every action keeps a link consistent. -/
theorem Link.Consistent.step (hcodec : codec.Faithful) (link : Link P) (action : Action P)
    (h : link.Consistent codec context) : (link.step codec action).Consistent codec context := by
  cases action with
  | transmit target base send =>
    simp only [Link.step, ServerBaselines.transmit]
    cases hprep : link.server.prepare target base codec with
    | error error => exact h
    | ok prepared =>
      obtain ⟨insert, packet⟩ := prepared
      dsimp only
      cases hsend : send packet with
      | true => exact h.transmit hprep
      | false => exact h
  | receive index spare validate =>
    simp only [Link.step]
    cases hp : link.packets[index]? with
    | none => exact h
    | some packet => exact h.receive hcodec (List.mem_of_getElem? hp) spare validate
  | acknowledge index =>
    simp only [Link.step]
    cases hr : link.receipts[index]? with
    | none => exact h
    | some receipt => exact h.acknowledge (List.mem_of_getElem? hr)
  | proposeRetirement through =>
    have hcache : (link.client.proposeRetirement through).1.cache = link.client.cache := by
      simp only [ClientBaselines.proposeRetirement]
      split
      · rfl
      · split_ifs <;> rfl
    simp only [Link.step]
    split
    · rename_i client request hout
      rw [hout] at hcache
      exact { h.client hcache with }
    · rename_i client error hout
      rw [hout] at hcache
      exact h.client hcache
  | retire index =>
    simp only [Link.step]
    cases hr : link.requests[index]? with
    | none => exact h
    | some request =>
      simp only [ServerBaselines.retire]
      cases hret : link.server.cache.retirement request with
      | some error => exact h
      | none => exact h.retire hret
  | acknowledgeRetirement index =>
    simp only [Link.step]
    cases hf : link.fences[index]? with
    | none => exact h
    | some fence => exact h.acknowledgeRetirement (List.mem_of_getElem? hf)
  | beginReset =>
    simp only [Link.step, ServerBaselines.beginReset]
    cases hnext : checkedNext link.server.cache.generation with
    | none => exact h
    | some generation =>
      have hlt : link.server.cache.generation < generation := by
        rw [(checkedNext_eq_some.mp hnext).1]
        exact Nat.lt_succ_self _
      dsimp only
      rcases Cache.reset_cases link.server.cache ⟨link.server.cache.context, generation⟩ with
        heq | ⟨heq, hgen⟩ | ⟨heq, -⟩
      · rw [heq]
        exact h
      · exact absurd hgen hlt.ne'
      · rw [heq]
        exact h.beginReset hlt
  | applyReset index =>
    simp only [Link.step]
    cases hr : link.resets[index]? with
    | none => exact h
    | some reset => exact h.applyReset (List.mem_of_getElem? hr)
  | requestReset => exact h.client rfl
  | repairRequest nowMs =>
    refine h.client ?_
    simp only [ClientBaselines.repairRequest]
    split_ifs <;> rfl
  | closeServer => exact h.closeServer
  | closeClient => exact h.closeClient

omit [DecidableEq P] in
theorem Link.start_consistent {layout : Layout} {generation : ℕ} {limits : BaselineLimits}
    {server : ServerBaselines P}
    (hs : ServerBaselines.new layout context generation limits = .ok server)
    (hc : ClientBaselines.new layout context generation limits = .ok client) :
    (Link.start server client).Consistent codec context := by
  simp only [ServerBaselines.new, ClientBaselines.new] at hs hc
  cases hcache : Cache.new (P := P) layout context generation limits with
  | error error => rw [hcache] at hs; cases hs
  | ok cache =>
    rw [hcache] at hs hc
    cases hs
    cases hc
    obtain ⟨hsound, hctx, hgen, -, -, hlat, hent, hvalid, hpos⟩ :=
      @Cache.new_sound P cache [] context generation layout limits hcache
    exact
      { context_valid := hvalid
        server_context := hctx
        client_context := hctx
        limits_eq := rfl
        generation_pos := by rw [← hgen] at hpos; exact hpos
        log := by constructor <;> simp [Link.start]
        server_sound := hsound
        client_sound := hsound
        newest := by simp [Link.start]
        generation_le := le_rfl
        retired_le := le_rfl
        fences_le := by simp [Link.start]
        resets_le := by simp [Link.start]
        retained := by simp [Link.start]
        decoded := by simp [Link.start, hent]
        genuine := by simp [Link.start] }

/-- What a link promises in every state it reaches. -/
structure Link.Agrees (codec : BaselineCodec P) (link : Link P) : Prop where
  /-- A held state was transmitted under its receipt, and never with another payload. -/
  payloads : ∀ e ∈ link.client.cache.entries,
    (∃ t ∈ link.transmitted, t.receipt = e.state.receipt) ∧
      ∀ t ∈ link.transmitted, t.receipt = e.state.receipt → t.payload = e.state.payload
  /-- Within one generation the client holds every state the server counts as decoded. -/
  decoded_held : link.server.cache.closed = false → link.client.cache.closed = false →
    link.server.cache.generation = link.client.cache.generation →
      ∀ e ∈ link.server.cache.entries, e.decoded = true →
        ∃ e' ∈ link.client.cache.entries, e'.state = e.state
  /-- No packet of the server, whenever it arrives, is rejected; one that is accepted leaves its
  exact state. -/
  packets : ∀ packet ∈ link.packets,
    ∀ (spare : ℕ) (validate : P → Bool) (client' : ClientBaselines P)
    (answer : Except ReplicationError BaselineReceipt),
    link.client.receive (packet.arrive spare) codec validate = (client', answer) →
      (∀ error, answer = .error error → error.isRejection = false) ∧
      ∀ receipt, answer = .ok receipt → receipt = packet.target ∧
        ∃ t ∈ link.transmitted, t.receipt = receipt ∧ client'.state receipt = .ok t

/-- A client that has just accepted a state answers for it. -/
theorem Received.state
    {log : List (BaselineState P)} {receipt : BaselineReceipt} (hsound : client.cache.Sound log)
    (hlog : Coherent context log) (ht : t ∈ log) (h : Received client t client' (.ok receipt)) :
    receipt = t.receipt ∧ client'.state receipt = .ok t := by
  have hstate : ∀ {cache : Cache P}, client'.cache = cache → cache.Sound log → t ∈ cache.states →
      cache.Admits t.receipt → client'.state t.receipt = .ok t := by
    rintro cache rfl hs hmem hadm
    obtain ⟨e, -, hentry, heq⟩ := hs.entry_of_mem hlog hmem hadm
    simp [ClientBaselines.state, hentry, Except.map, heq]
  cases h with
  | held hcache hadm hmem => exact ⟨rfl, hstate hcache hsound hmem hadm⟩
  | inserted hcache hacc =>
    refine ⟨rfl, hstate hcache (hsound.insert hacc ht true) ?_ ?_⟩
    · rw [Cache.insert_states]
      simp
    · exact { hacc.admits with }

theorem Link.Consistent.agrees (hcodec : codec.Faithful) (h : link.Consistent codec context) :
    link.Agrees codec where
  payloads := by
    intro e he
    have hlog := h.client_sound.held e.state (Cache.mem_states.mpr ⟨e, he, rfl⟩)
    refine ⟨⟨e.state, hlog, rfl⟩, fun t ht heq => ?_⟩
    rw [h.log.unique t ht e.state hlog (congrArg (·.snapshot) heq)]
  decoded_held := by
    intro _ hopen hgen e he hd
    have hmem := Cache.mem_states.mpr ⟨e, he, rfl⟩
    have hlog := h.server_sound.held e.state hmem
    have hcur := (h.server_sound.current e.state hmem).trans hgen
    -- the client promised the state, and its retired mark is behind the server's
    rcases (h.retained _ (h.decoded e he hd)).kept hopen hcur with hle | ⟨s, hs, heq⟩
    · have hlt := h.server_sound.unretired e.state hmem
      have := h.retired_le
      omega
    · obtain ⟨e', he', rfl⟩ := Cache.mem_states.mp hs
      exact ⟨e', he', h.log.unique _ (h.client_sound.held _ hs) _ hlog
        (congrArg (·.snapshot) heq)⟩
  packets := by
    intro packet hp spare validate client' answer hrecv
    obtain ⟨t, htarget, ha⟩ := h.arrived hcodec hp spare
    have hout := ha.receive h validate hrecv
    constructor
    · rintro error rfl
      cases hout with
      | refused _ hcache herror => exact herror
    · rintro receipt rfl
      obtain ⟨rfl, hstate⟩ := hout.state h.client_sound h.log ha.genuine.logged
      exact ⟨htarget, t, ha.genuine.logged, rfl, hstate⟩

/-- **Baseline agreement.**  A server and a client created with one context, generation and limits
agree in every state of every run, whatever the lanes lose, repeat or reorder. -/
theorem baseline_agreement (hcodec : codec.Faithful) {layout : Layout} {generation : ℕ}
    {limits : BaselineLimits} {server : ServerBaselines P} {client : ClientBaselines P}
    (hs : ServerBaselines.new layout context generation limits = .ok server)
    (hc : ClientBaselines.new layout context generation limits = .ok client)
    (actions : List (Action P)) :
    (run (Link.step codec) (Link.start server client) actions).Agrees codec :=
  (run_invariant (Link.Consistent.step hcodec) (Link.start_consistent hs hc) actions).agrees hcodec

end link

/-- A codec of boxed bytes whose only delta is the empty patch of an unchanged payload. -/
def unchangedCodec : BaselineCodec (List UInt8) where
  encodeFull v limit := if v.length ≤ limit then .ok ⟨v, v.length, le_rfl⟩ else .error .capacity
  encodeDelta base v _ := if v = base then .ok ⟨[], 0, le_rfl⟩ else .error .capacity
  decodeFull bytes limit := if bytes.length ≤ limit then .ok bytes else .error .capacity
  decodeDelta base bytes _ := if bytes = [] then .ok base else .error .invalidPayload
  validate _ := true

theorem unchangedCodec_faithful : unchangedCodec.Faithful where
  full := by
    intro v limit bytes limit' henc hfits
    simp only [unchangedCodec] at henc ⊢
    split_ifs at henc
    cases henc
    exact if_pos hfits
  delta := by
    intro base v limit bytes limit' henc hfits
    simp only [unchangedCodec] at henc ⊢
    split_ifs at henc with heq
    cases henc
    rw [heq]
    rfl

/-- A full state, its receipt, and a delta against it that arrives twice. -/
theorem baseline_agreement_delta :
    let context : BaselineContext := ⟨⟨1, ⟨7, 1⟩, 1, 1⟩, 1, none⟩
    let layout : Layout := ⟨8, 16, id⟩
    let limits : BaselineLimits := ⟨4, 8, 20, 64, 92, 1000⟩
    let first : BaselineState (List UInt8) := ⟨⟨context, 1, 1, 1, 10⟩, [1, 2, 3]⟩
    let second : BaselineState (List UInt8) := ⟨⟨context, 1, 2, 1, 11⟩, [1, 2, 3]⟩
    let actions : List (Action (List UInt8)) :=
      [.transmit first none (fun _ => true), .receive 0 0 (fun _ => true), .acknowledge 0,
        .transmit second (some first.receipt) (fun _ => true), .receive 1 5 (fun _ => true),
        .receive 1 0 (fun _ => true)]
    ∃ server client, ServerBaselines.new layout context 1 limits = .ok server ∧
      ClientBaselines.new layout context 1 limits = .ok client ∧
      let link := run (Link.step unchangedCodec) (Link.start server client) actions
      link.packets.map (·.encoding) = [.full, .delta first.receipt] ∧
      link.receipts = [first.receipt, second.receipt, second.receipt] ∧
      link.Agrees unchangedCodec := by
  intro context layout limits first second actions
  exact ⟨_, _, rfl, rfl, by decide, by decide,
    @baseline_agreement _ _ _ _ context unchangedCodec_faithful layout 1 limits _ _ rfl rfl actions⟩

end Net.Baselines
