import Discordium.Lib.Fallible
import Discordium.Net.Baselines.Link

/-!
# Net — Baselines — Wire

The packet lane of a consistent link.  What the server hands to the transport is a genuine packet
and keeps the link consistent; what the client does with a genuine packet is one of three things,
`Received`: a refusal that is no rejection, a state it held already, or a state it holds from now
on.
-/

namespace Net.Baselines
open Lib

variable {P : Type}

/-! ### What the server puts on the wire -/

namespace ServerBaselines
variable {server : ServerBaselines P} {codec : BaselineCodec P} {target : BaselineState P}
variable {base : Option BaselineReceipt} {bytes : ByteVec}

theorem encodeFull_ok {payload : P} {packetBytes : ℕ}
    (h : encodeFull codec payload packetBytes = .ok bytes) :
    codec.encodeFull payload packetBytes = .ok bytes := by
  simp only [encodeFull] at h
  split at h
  · cases h
  · rename_i v hv
    split_ifs at h
    rw [hv, ← h]

/-- An encoding is full, or a delta against a decoded entry of an older snapshot. -/
theorem encode_ok {encoding : BaselineEncoding}
    (h : server.encode target base codec = .ok (encoding, bytes)) :
    (encoding = .full ∧ codec.encodeFull target.payload server.cache.limits.packetBytes =
      .ok bytes) ∨
    ∃ receipt e, encoding = .delta receipt ∧ server.cache.entry receipt = .ok e ∧
      e.decoded = true ∧ receipt.snapshot < target.receipt.snapshot ∧
      codec.encodeDelta e.state.payload target.payload server.cache.limits.packetBytes =
        .ok bytes := by
  have hfull : ∀ {r}, (encodeFull codec target.payload server.cache.limits.packetBytes).map
      (BaselineEncoding.full, ·) = .ok r →
      r.1 = .full ∧ codec.encodeFull target.payload server.cache.limits.packetBytes = .ok r.2 := by
    intro r hr
    cases hb : encodeFull codec target.payload server.cache.limits.packetBytes with
    | error error => rw [hb] at hr; cases hr
    | ok v =>
      rw [hb] at hr
      cases hr
      exact ⟨rfl, encodeFull_ok hb⟩
  simp only [encode] at h
  cases base with
  | none => exact .inl (hfull h)
  | some receipt =>
    dsimp only at h
    split at h
    · cases h
    rename_i e he
    by_cases hd : e.decoded = true
    swap
    · simp [hd] at h
    by_cases hsnap : target.receipt.snapshot ≤ receipt.snapshot
    · simp [hd, hsnap] at h
    simp only [hd, Bool.not_true, Bool.false_eq_true, if_false, if_neg hsnap] at h
    split at h
    · cases h
    split at h
    · rename_i delta hdelta
      split_ifs at h
      · cases h
        exact .inr ⟨receipt, e, rfl, he, hd, not_le.mp hsnap, hdelta⟩
      · exact .inl (hfull h)
    · exact .inl (hfull h)
    · cases h

/-- What is known of a packet handed to the transport. -/
theorem prepare_ok [DecidableEq P] [Payload P] {insert : Bool} {packet : BaselinePacket}
    (h : server.prepare target base codec = .ok (insert, packet)) :
    server.cache.check target = .ok insert ∧ codec.validate target.payload = true ∧
      packet.target = target.receipt ∧
      server.encode target base codec = .ok (packet.encoding, packet.bytes) := by
  simp only [prepare] at h
  split at h
  · cases h
  rename_i inserted hcheck
  split_ifs at h with hvalid
  obtain ⟨encoding, hencode, he⟩ := map_eq_ok.mp h
  cases he
  exact ⟨hcheck, by simpa using hvalid, rfl, hencode⟩

end ServerBaselines

theorem Cache.entry_ok {cache : Cache P} {receipt : BaselineReceipt} {e : Entry P}
    (h : cache.entry receipt = .ok e) :
    cache.Admits receipt ∧ e ∈ cache.entries ∧ e.state.receipt = receipt := by
  simp only [Cache.entry] at h
  split at h
  · cases h
  rename_i hid
  split at h
  · cases h
  rename_i e' hfind
  split_ifs at h with heq
  cases h
  exact ⟨Cache.identity_eq_none.mp hid, (Cache.find_some hfind).1, not_not.mp heq⟩

/-! ### Transmission -/

section transmission
variable [DecidableEq P] [Payload P] {codec : BaselineCodec P} {context : BaselineContext}
  {link : Link P}
variable {target : BaselineState P}

/-- The log stays coherent when the server accepts one more state. -/
theorem Link.Consistent.coherent_snoc (h : link.Consistent codec context)
    (hacc : link.server.cache.Accepts target) :
    Coherent context (link.transmitted ++ [target]) := by
  have hadm := hacc.admits
  -- everything transmitted so far lies below the server's high-water mark, and so below the target
  have hbelow : ∀ u ∈ link.transmitted, u.receipt.snapshot < target.receipt.snapshot ∧
      u.receipt.Le target.receipt ∧
      (u.receipt.generation = target.receipt.generation →
        u.receipt.version = target.receipt.version → u.payload = target.payload) := by
    intro u hu
    obtain ⟨r, hr, hle⟩ := h.newest u hu
    obtain ⟨hrgen, t, ht, rfl⟩ := h.server_sound.latest_logged r hr
    obtain ⟨hsnap, hversion, htick, hsame⟩ := Cache.checkLatest_none hacc.order hr
    have hut := h.log.le hu ht hle
    refine ⟨hle.trans_lt hsnap, ⟨?_, hut.version.trans hversion, hut.endTick.trans htick⟩, ?_⟩
    · rw [hadm.generation]
      exact hut.generation.trans hrgen
    · intro hgen hver
      have hgen' : t.receipt.generation = link.server.cache.generation :=
        le_antisymm hrgen (by rw [← hadm.generation, ← hgen]; exact hut.generation)
      have hver' : t.receipt.version = target.receipt.version :=
        le_antisymm hversion (by rw [← hver]; exact hut.version)
      obtain ⟨last, hlast, hreceipt⟩ := h.server_sound.last_of_latest hadm.opened hr hgen'
      have hmem := h.server_sound.held last (List.mem_of_getLast? hlast)
      rw [Cache.states, List.getLast?_map] at hlast
      obtain ⟨e, he, rfl⟩ := Option.map_eq_some_iff.mp hlast
      rw [← hsame hver'.symm e he]
      refine h.log.same_version u hu e.state hmem ?_ ?_
      · rw [hreceipt, hgen', hgen, hadm.generation]
      · rw [hreceipt, hver', hver]
  have hmem : ∀ {u}, u ∈ link.transmitted ++ [target] ↔ u ∈ link.transmitted ∨ u = target := by
    simp
  constructor
  · intro u hu
    rcases hmem.mp hu with hu | rfl
    · exact h.log.context_eq u hu
    · exact hadm.context.trans h.server_context
  · intro u hu
    rcases hmem.mp hu with hu | rfl
    · exact h.log.positive u hu
    · exact ⟨hadm.generation ▸ h.generation_pos, hadm.snapshot, hadm.version⟩
  · intro u hu v hv heq
    rcases hmem.mp hu with hu' | rfl <;> rcases hmem.mp hv with hv' | rfl
    · exact h.log.unique u hu' v hv' heq
    · exact absurd heq (hbelow u hu').1.ne
    · exact absurd heq.symm (hbelow v hv').1.ne
    · rfl
  · intro u hu v hv hlt
    rcases hmem.mp hu with hu' | rfl <;> rcases hmem.mp hv with hv' | rfl
    · exact h.log.ordered u hu' v hv' hlt
    · exact (hbelow u hu').2.1
    · exact absurd hlt (hbelow v hv').1.asymm
    · exact absurd hlt (lt_irrefl _)
  · intro u hu v hv hgen hver
    rcases hmem.mp hu with hu' | rfl <;> rcases hmem.mp hv with hv' | rfl
    · exact h.log.same_version u hu' v hv' hgen hver
    · exact (hbelow u hu').2.2 hgen hver
    · exact ((hbelow v hv').2.2 hgen.symm hver.symm).symm
    · rfl

variable {insert : Bool}

/-- The packet the server hands to the transport is genuine. -/
theorem Link.Consistent.prepared_genuine (h : link.Consistent codec context)
    {base : Option BaselineReceipt} {packet : BaselinePacket}
    (hprep : link.server.prepare target base codec = .ok (insert, packet)) :
    Genuine codec link.server.cache.limits (link.transmitted ++ [target]) link.receipts packet
      target := by
  obtain ⟨hcheck, -, htarget, henc⟩ := ServerBaselines.prepare_ok hprep
  obtain ⟨hadm, hfits, -⟩ := Cache.check_ok hcheck
  refine ⟨by simp, htarget.symm, hfits, ?_⟩
  simp only [EncodedFrom]
  rcases ServerBaselines.encode_ok henc
    with ⟨hfull, hbytes⟩ | ⟨receipt, e, hdelta, he, hd, hlt, hbytes⟩
  · rw [hfull]
    exact ⟨_, hbytes, rfl⟩
  · rw [hdelta]
    obtain ⟨hbase, hmem, hreceipt⟩ := Cache.entry_ok he
    have hlog := h.server_sound.held _ (Cache.mem_states.mpr ⟨e, hmem, rfl⟩)
    subst hreceipt
    refine ⟨h.decoded e hmem hd, e.state, List.mem_append_left _ hlog, rfl, ?_, hlt, _, hbytes, rfl⟩
    rw [hbase.generation, hadm.generation]

/-- The server sends one more state, new or held already. -/
theorem Link.Consistent.transmit (h : link.Consistent codec context)
    {base : Option BaselineReceipt} {packet : BaselinePacket}
    (hprep : link.server.prepare target base codec = .ok (insert, packet)) :
    Link.Consistent codec context
      { link with
        server := if insert then ⟨link.server.cache.insert target false⟩ else link.server
        transmitted := link.transmitted ++ [target], packets := link.packets ++ [packet] } := by
  have hnew := h.prepared_genuine hprep
  obtain ⟨hcheck, -, -⟩ := ServerBaselines.prepare_ok hprep
  obtain ⟨hadm, -, hinsert⟩ := Cache.check_ok hcheck
  have hsub : ∀ t ∈ link.transmitted, t ∈ link.transmitted ++ [target] := fun t ht =>
    List.mem_append_left _ ht
  have hpackets : ∀ p ∈ link.packets ++ [packet], ∃ t, Genuine codec link.server.cache.limits
      (link.transmitted ++ [target]) link.receipts p t := by
    intro p hp
    rcases List.mem_append.mp hp with hp | hp
    · obtain ⟨t, ht⟩ := h.genuine p hp
      exact ⟨t, ht.mono hsub fun r hr => hr⟩
    · rw [List.mem_singleton.mp hp]
      exact ⟨target, hnew⟩
  cases insert with
  | true =>
    have hacc : link.server.cache.Accepts target := hinsert
    have hlog := h.coherent_snoc hacc
    have hmem : target ∈ link.transmitted ++ [target] := by simp
    exact
      { context_valid := h.context_valid
        server_context := h.server_context
        client_context := h.client_context
        limits_eq := h.limits_eq
        generation_pos := h.generation_pos
        log := hlog
        server_sound := (h.server_sound.mono hsub).insert hacc hmem false
        client_sound := h.client_sound.mono hsub
        newest := by
          intro t ht
          refine ⟨target.receipt, rfl, ?_⟩
          rcases List.mem_append.mp ht with ht | ht
          · obtain ⟨r, hr, hle⟩ := h.newest t ht
            exact hle.trans (Cache.checkLatest_none hacc.order hr).1.le
          · rw [List.mem_singleton.mp ht]
        generation_le := h.generation_le
        retired_le := h.retired_le
        fences_le := h.fences_le
        resets_le := h.resets_le
        retained := fun r hr => (h.retained r hr).mono hsub
        decoded := by
          intro e he hd
          rcases List.mem_append.mp he with he | he
          · exact h.decoded e he hd
          · rw [List.mem_singleton.mp he] at hd
            cases hd
        genuine := hpackets }
  | false =>
    have hheld : target ∈ link.transmitted := h.server_sound.held target hinsert
    have hback : ∀ t ∈ link.transmitted ++ [target], t ∈ link.transmitted := by
      intro t ht
      rcases List.mem_append.mp ht with ht | ht
      · exact ht
      · rwa [List.mem_singleton.mp ht]
    exact
      { h with
        log := h.log.subset hback
        server_sound := h.server_sound.mono hsub
        client_sound := h.client_sound.mono hsub
        newest := fun t ht => h.newest t (hback t ht)
        retained := fun r hr => (h.retained r hr).mono hsub
        genuine := hpackets }

end transmission

/-! ### Reception -/

/-- The outcomes of receiving a packet of a logged state: a refusal that is none of the rejections,
or the state held, before or from now on. -/
inductive Received [DecidableEq P] [Payload P] (client : ClientBaselines P) (t : BaselineState P) :
    ClientBaselines P → Except ReplicationError BaselineReceipt → Prop
  | refused (client' : ClientBaselines P) (error : ReplicationError)
      (hcache : client'.cache = client.cache) (herror : error.isRejection = false) :
      Received client t client' (.error error)
  | held (client' : ClientBaselines P) (hcache : client'.cache = client.cache)
      (hadm : client.cache.Admits t.receipt) (hmem : t ∈ client.cache.states) :
      Received client t client' (.ok t.receipt)
  | inserted (client' : ClientBaselines P) (hcache : client'.cache = client.cache.insert t true)
      (hacc : client.cache.Accepts t) : Received client t client' (.ok t.receipt)

section reception
variable [Payload P] {codec : BaselineCodec P} {context : BaselineContext} {link : Link P}
variable {packet : BaselinePacket} {t : BaselineState P}

/-- A packet the server produced, as the client of a consistent link sees it. -/
structure Arrived (codec : BaselineCodec P) (link : Link P) (packet : BaselinePacket)
    (t : BaselineState P) : Prop where
  faithful : codec.Faithful
  genuine : Genuine codec link.server.cache.limits link.transmitted link.receipts packet t

section
variable (h : link.Consistent codec context)
include h

section
variable (ha : Arrived codec link packet t)
include ha

/-- A full packet of a logged state decodes to it. -/
theorem Arrived.decodeFull (hfull : packet.encoding = .full) :
    codec.decodeFull packet.bytes.bytes link.client.cache.limits.payloadBytes = .ok t.payload := by
  have henc := ha.genuine.encoded
  simp only [EncodedFrom, hfull] at henc
  obtain ⟨v, hv, hbytes⟩ := henc
  rw [← hbytes, h.limits_eq]
  exact ha.faithful.full _ _ _ _ hv ha.genuine.fits

theorem Arrived.refuse
    (validate : P → Bool) {error : ReplicationError} (herror : error.isRejection = false) :
    (link.client.refuse packet codec validate error).isRejection = false := by
  simp only [ClientBaselines.refuse]
  cases henc : packet.encoding with
  | delta base => exact herror
  | full =>
    rw [ha.decodeFull h henc]
    dsimp only
    split_ifs
    · rfl
    · exact herror

/-- The envelope of a packet of the server is never malformed. -/
theorem Arrived.checkEnvelope :
    link.client.checkEnvelope packet = none ∨ link.client.checkEnvelope packet =
      some .capacity := by
  have ht := ha.genuine.logged
  have hctx := h.log.context_eq t ht
  have hpos := h.log.positive t ht
  have hdelta : ClientBaselines.malformedDelta packet = false := by
    have henc := ha.genuine.encoded
    simp only [ClientBaselines.malformedDelta, ← ha.genuine.target]
    simp only [EncodedFrom] at henc
    cases hp : packet.encoding with
    | full => rfl
    | delta base =>
      rw [hp] at henc
      obtain ⟨-, b, hb, rfl, hgen, hlt, -⟩ := henc
      have hbpos := h.log.positive b hb
      have hle := h.log.ordered b hb t ht hlt
      have hbctx := h.log.context_eq b hb
      simp [hbctx, hctx, hgen, hbpos, hle.version, hle.endTick, hlt]
  have hlatest : link.client.cache.latest.any
      (fun latest => decide (ClientBaselines.contradicts t.receipt latest)) = false := by
    cases hl : link.client.cache.latest with
    | none => rfl
    | some r =>
      obtain ⟨-, u, hu, rfl⟩ := h.client_sound.latest_logged r hl
      refine decide_eq_false ?_
      simp only [ClientBaselines.contradicts]
      rcases lt_trichotomy t.receipt.snapshot u.receipt.snapshot with hlt | heq | hgt
      · have hle := h.log.ordered t ht u hu hlt
        have := hle.version
        have := hle.endTick
        omega
      · rw [h.log.unique t ht u hu heq]
        simp
      · have hle := h.log.ordered u hu t ht hgt
        have := hle.version
        have := hle.endTick
        omega
  simp only [ClientBaselines.checkEnvelope, ← ha.genuine.target, hctx, h.context_valid,
    hdelta, hlatest]
  by_cases hcap : link.client.cache.limits.packetBytes < packet.bytes.capacity
  · exact .inr (if_pos hcap)
  · rw [if_neg hcap]
    simp [hpos]

/-- A packet of the server is refused for its age only; otherwise its target is admitted and not
superseded. -/
theorem Arrived.checkRetention (validate : P → Bool) :
    (∃ error, link.client.checkRetention packet codec validate = some error ∧
      error.isRejection = false) ∨
    (link.client.checkRetention packet codec validate = none ∧ link.client.cache.Admits t.receipt ∧
      link.client.superseded t.receipt = false) := by
  have ht := ha.genuine.logged
  have hpos := h.log.positive t ht
  simp only [ClientBaselines.checkRetention, ← ha.genuine.target]
  split
  · exact .inl ⟨_, rfl, ha.refuse h validate rfl⟩
  split
  · exact .inl ⟨_, rfl, ha.refuse h validate rfl⟩
  cases hid : link.client.cache.identity t.receipt with
  | some error =>
    -- a positive identity can only be stale or retired
    have herror : error = .stale ∨ error = .obsolete .retiredBaseline := by
      simp only [Cache.identity] at hid
      split at hid
      · rename_i e henv
        simp only [Cache.envelope] at henv
        split_ifs at henv
        cases henv
        exact .inl (Option.some.inj hid).symm
      · split_ifs at hid with hz
        · exact absurd hz (by tauto)
        · exact .inr (Option.some.inj hid).symm
    rcases herror with rfl | rfl
    · exact .inl ⟨_, rfl, rfl⟩
    · exact .inl ⟨_, rfl, ha.refuse h validate rfl⟩
  | none =>
    have hadm := Cache.identity_eq_none.mp hid
    cases hsup : link.client.superseded t.receipt with
    | false => exact .inr ⟨by simp, hadm, rfl⟩
    | true =>
      left
      have horder : link.client.cache.latest.any (fun latest =>
          decide (latest.version < t.receipt.version) ||
            decide (latest.endTick < t.receipt.endTick))
          = false := by
        simp only [ClientBaselines.superseded, Bool.and_eq_true] at hsup
        cases hl : link.client.cache.latest with
        | none => rfl
        | some r =>
          obtain ⟨-, u, hu, rfl⟩ := h.client_sound.latest_logged r hl
          have hlt : t.receipt.snapshot < u.receipt.snapshot := by simpa [hl] using hsup.1
          have hle := h.log.ordered t ht u hu hlt
          simp [hle.version, hle.endTick]
      simp only [horder, Bool.false_eq_true, if_true, if_false]
      exact ⟨_, rfl, ha.refuse h validate rfl⟩

/-- An admitted packet decodes to its state, or its base has been retired. -/
theorem Arrived.decode (hadm : link.client.cache.Admits t.receipt) :
    link.client.decode packet codec = (link.client, .ok t.payload) ∨
      link.client.decode packet codec = (link.client, .error (.obsolete .retiredBaseline)) := by
  simp only [ClientBaselines.decode]
  cases hp : packet.encoding with
  | full => exact .inl (by rw [ha.decodeFull h hp])
  | delta base =>
    have henc := ha.genuine.encoded
    simp only [EncodedFrom, hp] at henc
    obtain ⟨hreceipt, b, hb, rfl, hgen, hlt, v, hv, hbytes⟩ := henc
    have hctx := (h.log.context_eq b hb).trans (h.log.context_eq t ha.genuine.logged).symm
    have hpos := h.log.positive b hb
    have hbgen := hgen.trans hadm.generation
    simp only [← ha.genuine.target, hctx, hgen, not_le.mpr hlt, ne_eq, not_true_eq_false, or_false,
      if_false]
    by_cases hret : b.receipt.snapshot ≤ link.client.cache.retired
    · -- the base is below the retired mark
      have henv := Cache.envelope_eq_none.mpr
        ⟨hadm.opened, hctx.trans hadm.context, hbgen⟩
      have hentry : link.client.cache.entry b.receipt = .error (.obsolete .retiredBaseline) := by
        simp [Cache.entry, Cache.identity, henv, hpos, hret]
      exact .inr (by rw [hentry])
    · -- the client has returned a receipt for the base, so it still holds it
      have hbadm : link.client.cache.Admits b.receipt :=
        ⟨hadm.opened, hctx.trans hadm.context, hbgen, hpos.2.1, hpos.2.2, not_le.mp hret⟩
      obtain ⟨s, hs, hsb⟩ := ((h.retained _ hreceipt).kept hadm.opened hbgen).resolve_left hret
      obtain rfl : s = b :=
        h.log.unique s (h.client_sound.held s hs) b hb (congrArg (·.snapshot) hsb)
      obtain ⟨e, -, hentry, heq⟩ := h.client_sound.entry_of_mem h.log hs hbadm
      left
      rw [hentry]
      simp only [heq, ← hbytes, h.limits_eq]
      rw [ha.faithful.delta _ _ _ _ _ hv ha.genuine.fits]

end

end

/-- **Reception.**  The client of a consistent link answers a packet of the server with its state or
with a refusal that is no rejection. -/
theorem Arrived.receive [DecidableEq P] (h : link.Consistent codec context)
    (ha : Arrived codec link packet t) (validate : P → Bool) {client' : ClientBaselines P}
    {answer : Except ReplicationError BaselineReceipt}
    (hrecv : link.client.receive packet codec validate = (client', answer)) :
    Received link.client t client' answer := by
  simp only [ClientBaselines.receive] at hrecv
  rcases ha.checkEnvelope h with henv | henv
  swap
  · rw [henv] at hrecv
    cases hrecv
    exact .refused _ _ rfl rfl
  rw [henv] at hrecv
  rcases ha.checkRetention h validate with ⟨error, hret, herror⟩ | ⟨hret, hadm, hsup⟩
  · rw [hret] at hrecv
    cases hrecv
    exact .refused _ _ rfl herror
  rw [hret] at hrecv
  rcases ha.decode h hadm with hdec | hdec
  swap
  · rw [hdec] at hrecv
    cases hrecv
    exact .refused _ _ rfl rfl
  rw [hdec] at hrecv
  simp only [← ha.genuine.target] at hrecv
  by_cases hval : (!codec.validate t.payload || !validate t.payload) = true
  · rw [if_pos hval] at hrecv
    cases hrecv
    exact .refused _ _ rfl rfl
  rw [if_neg hval] at hrecv
  have hcur : ∀ r, link.client.cache.latest = some r → t.receipt.snapshot < r.snapshot →
      (link.client.cache.find t.receipt.snapshot).isSome = true := by
    intro r hr hlt
    simp only [ClientBaselines.superseded, hr, Option.any_some, hlt, decide_true, Bool.true_and,
      Bool.not_eq_false'] at hsup
    exact hsup
  rcases h.client_sound.check_logged h.log ha.genuine.logged hadm hcur
    with ⟨insert, hcheck⟩ | hcheck
  swap
  · rw [hcheck] at hrecv
    cases hrecv
    exact .refused _ _ rfl rfl
  rw [hcheck] at hrecv
  obtain ⟨-, -, hinsert⟩ := Cache.check_ok hcheck
  cases hrecv
  cases insert with
  | true => exact .inserted _ rfl hinsert
  | false => exact .held _ rfl hadm hinsert

end reception

end Net.Baselines
