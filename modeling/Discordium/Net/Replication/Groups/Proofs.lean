import Discordium.Net.Replication.Groups.Arrival

/-!
# Net — Replication — Groups — Proofs

A proof of a published group yields the states its chunks brought, whatever was applied to the
client in between.  The fence of a record only grows, with any messages (`apply_moves`), and it
grows strictly unless a full state is repeated.  So a state that was once retained is retained
still, or its record is past it for good (`Retained`); what has its receipt is the state itself.
-/

namespace Net
open Lib
open Std (ExtTreeMap)

variable {P : Type}

namespace ClientScopes

/-! ### Records under any messages -/

/-- Every record is the one some message of its index leaves. -/
def Written (client : ClientScopes P) : Prop :=
  ∀ (i : ℕ) (r : Replica P), client.records[i]? = some r → ∃ m : Message P, m.index = i ∧
    r = m.replica

/-- The second message may replace the record of the first. -/
def Follows (old m : Message P) : Prop :=
  old.key < m.key ∨ (old.key = m.key ∧ ∀ f g, old = .full f → m = .full g → f = g)

variable {m : Message P} {client client' : ClientScopes P}

theorem Follows.le {old : Message P} (h : Follows old m) : old.key ≤ m.key :=
  h.elim le_of_lt fun h => h.1.le

/-- A client after a message: as it was, or with the record of one index replaced. -/
inductive Moves (client : ClientScopes P) (m : Message P) : ClientScopes P → Prop where
  | refused : Moves client m client
  | written (bytes : ℕ) (h : ∀ old : Message P, old.index = m.index →
      client.records[m.index]? = some old.replica → Follows old m) :
      Moves client m { client with records := client.records.insert m.index m.replica, bytes }

section apply
variable [DecidableEq P] {state : FullState P}

theorem checkPublication_follows {previous : FullState P}
    (h : checkPublication state previous = none) :
    previous.snapshot ≤ state.snapshot ∧ (state.snapshot = previous.snapshot →
      state = previous) := by
  unfold checkPublication at h
  split_ifs at h with hsame hversion holder hwatermark
  push Not at hsame hwatermark
  exact ⟨hwatermark.2.1, hsame⟩

theorem checkFence_follows {old : Message P}
    (h : checkFence state old.replica = none) : Follows old (.full state) := by
  cases old with
  | full previous =>
    simp only [checkFence, Message.replica, Option.bind_some] at h
    split_ifs at h with hgen hgen' hscope hscope' hid
    · -- one scope: the snapshots decide
      obtain ⟨hle, hsame⟩ := checkPublication_follows h
      rcases hle.eq_or_lt with heq | hlt
      · obtain rfl := hsame heq.symm
        exact .inr ⟨rfl, by rintro f g ⟨⟩ ⟨⟩; rfl⟩
      · refine .inl (fenceKey_lt.mpr ?_)
        omega
    · refine .inl (fenceKey_lt.mpr ?_)
      push Not at hscope
      omega
    · refine .inl (fenceKey_lt.mpr ?_)
      omega
  | exit e =>
    simp only [checkFence, Message.replica] at h
    split_ifs at h with hgen hgen' hscope hscope' hid
    · refine .inl (fenceKey_lt.mpr ?_)
      push Not at hscope
      omega
    · refine .inl (fenceKey_lt.mpr ?_)
      omega
  | destroy d =>
    simp only [checkFence, Message.replica, destroyScope] at h
    split_ifs at h with hgen hgen'
    · simp at *
    · refine .inl (fenceKey_lt.mpr ?_)
      omega

variable [Payload P]

/-- A full state is refused and changes nothing, or is answered with its receipt and is there. -/
theorem applyFull_cases (client : ClientScopes P) (state : FullState P) (validate : P → Bool) :
    (∃ error, client.applyFull state validate = (client, .error error)) ∨
    (state.scope.connection = client.connection ∧ ∃ client',
      client.applyFull state validate = (client', .ok state.receipt) ∧
      Moves client (.full state) client' ∧
      client'.records[state.scope.entity.index]? = some (Message.full state).replica) := by
  unfold applyFull
  cases hvalid : state.validateIdentity client.connection with
  | some error => exact .inl ⟨error, rfl⟩
  | none =>
  dsimp only
  split
  · exact .inl ⟨_, rfl⟩
  split
  · exact .inl ⟨_, rfl⟩
  split
  · exact .inl ⟨_, rfl⟩
  split
  · exact .inl ⟨_, rfl⟩
  rename_i hfence
  split
  · exact .inl ⟨_, rfl⟩
  split
  · exact .inl ⟨_, rfl⟩
  refine .inr ⟨?_, _, rfl, .written _ fun old _ hold => ?_, by simp [Message.replica]⟩
  · unfold FullState.validateIdentity at hvalid
    split at hvalid
    · cases hvalid
    · rename_i hscope
      exact (validateScope_eq_none.mp hscope).1
  · refine checkFence_follows ?_
    have hold : client.records[state.scope.entity.index]? = some old.replica := hold
    rwa [hold] at hfence

omit [DecidableEq P] in
theorem applyExit_moves (client : ClientScopes P) (exit : ScopeExit) :
    Moves client (.exit exit) (client.applyExit exit).1 := by
  unfold applyExit
  split
  · exact .refused
  dsimp only
  split
  · exact .refused
  split
  · exact .refused
  · rename_i hfence
    refine .written _ fun old _ hold => ?_
    have hold : client.records[exit.scope.entity.index]? = some old.replica := hold
    rw [hold] at hfence
    rcases (checkExit_none hfence).eq_or_lt with heq | hlt
    · exact .inr ⟨heq, nofun⟩
    · exact .inl hlt

omit [DecidableEq P] in
theorem applyDestroy_moves (client : ClientScopes P) (destroy : Destroy) :
    Moves client (.destroy destroy) (client.applyDestroy destroy).1 := by
  unfold applyDestroy
  split
  · exact .refused
  split
  · exact .refused
  dsimp only
  split
  · exact .refused
  split
  · exact .refused
  · rename_i hgeneration
    refine .written _ fun old _ hold => ?_
    have hold : client.records[destroy.entity.index]? = some old.replica := hold
    have hle : old.replica.scope.entity.generation ≤ destroy.entity.generation := by
      simpa [hold] using hgeneration
    have hkey : old.key ≤ (Message.destroy destroy : Message P).key := by
      cases old <;> simpa [Message.key, fenceKey_le, ← le_iff_lt_or_eq, Message.replica,
        destroyScope] using hle
    rcases hkey.eq_or_lt with heq | hlt
    · refine .inr ⟨heq, ?_⟩
      rintro _ _ _ ⟨⟩
    · exact .inl hlt

/-- **What any message can do to a client.** -/
theorem apply_moves (client : ClientScopes P) (m : Message P) (validate : P → Bool) :
    Moves client m (client.apply m validate).1 := by
  cases m with
  | full state =>
    change Moves client (.full state) (client.applyFull state validate).1
    rcases client.applyFull_cases state validate with ⟨error, h⟩ | ⟨-, client', h, hmoves, -⟩
    · rw [h]
      exact .refused
    · rw [h]
      exact hmoves
  | exit e => exact client.applyExit_moves e
  | destroy d => exact client.applyDestroy_moves d

end apply

theorem Moves.connection (h : Moves client m client') :
    client'.connection = client.connection := by
  cases h <;> rfl

theorem Moves.keeps_written (hw : client.Written)
    (h : Moves client m client') : client'.Written := by
  cases h with
  | refused => exact hw
  | written bytes hfollows =>
    intro i r hr
    rw [lookup_insert] at hr
    split_ifs at hr with hi
    · cases hr
      exact ⟨m, hi, rfl⟩
    · exact hw i r hr

/-! ### Retained states -/

/-- The record of the state holds it, or is past it. -/
def Retained (client : ClientScopes P) (s : FullState P) : Prop :=
  ∃ r : Replica P, client.records[s.scope.entity.index]? = some r ∧
    (r = (Message.full s).replica ∨ (Message.full s).key < r.key)

theorem Retained.moves {s : FullState P}
    (hs : client.Retained s) (hw : client.Written) (h : Moves client m client') :
    client'.Retained s := by
  cases h with
  | refused => exact hs
  | written bytes hfollows =>
    obtain ⟨r, hr, hrecord⟩ := hs
    by_cases hi : m.index = s.scope.entity.index
    · refine ⟨m.replica, by rw [lookup_insert, if_pos hi], ?_⟩
      rw [Message.replica_key]
      rw [← hi] at hr
      rcases hrecord with rfl | hlt
      · rcases hfollows (.full s) hi.symm hr with hlt | ⟨heq, hsame⟩
        · exact .inr hlt
        · -- the same fence again is that of a full state, and of this one
          cases m with
          | full g => exact .inl (by rw [hsame s g rfl rfl])
          | exit e => exact absurd (fenceKey_inj.mp heq).2.2.2.1 (by decide)
          | destroy d => exact absurd (fenceKey_inj.mp heq).2.1 (by decide)
      · obtain ⟨old, hold, rfl⟩ := hw _ r hr
        rw [Message.replica_key] at hlt
        exact .inr (hlt.trans_le (hfollows old hold hr).le)
    · exact ⟨r, by rw [lookup_insert, if_neg hi]; exact hr, hrecord⟩

/-- **A receipt names one state.**  What the client retains under the receipt of a retained state is
that state. -/
theorem Retained.eq_of_receipt {s found : FullState P}
    (hs : client.Retained s) (hw : client.Written)
    (hfound : client.state s.scope.entity = some found) (hreceipt : found.receipt = s.receipt) :
    found = s := by
  unfold state at hfound
  obtain ⟨r, hr, hrecord⟩ := hs
  rw [hr, Option.filter_eq_some_iff] at hfound
  have hstate : r.state = some found := hfound.1
  rcases hrecord with rfl | hlt
  · exact (Option.some.inj hstate).symm
  · obtain ⟨old, -, rfl⟩ := hw _ r hr
    rw [Message.replica_key] at hlt
    cases old with
    | full f =>
      obtain rfl : f = found := Option.some.inj hstate
      simp only [FullState.receipt, StateReceipt.mk.injEq] at hreceipt
      refine absurd hlt (not_lt.mpr (le_of_eq ?_))
      simp only [Message.key, hreceipt.1, hreceipt.2.2.1]
    | exit e => cases hstate
    | destroy d => cases hstate

end ClientScopes
variable {client : ClientScopes P}

/-- What a publication leaves: every member retained, and whatever was retained before. -/
theorem GroupAssembler.applyAll_retained [DecidableEq P] [Payload P] {validate : P → Bool}
    {client' : ClientScopes P} {members : List (FullState P)} {receipts : List StateReceipt}
    (hw : client.Written) (h : applyAll validate client members = .ok (client', receipts)) :
    client'.Written ∧ client'.connection = client.connection ∧
      receipts = members.map (fun state => state.receipt) ∧
      (∀ s, client.Retained s → client'.Retained s) ∧
      ∀ m ∈ members, m.scope.connection = client.connection ∧ client'.Retained m := by
  induction members generalizing client receipts with
  | nil =>
    cases h
    exact ⟨hw, rfl, rfl, fun s hs => hs, by simp⟩
  | cons state states ih =>
    unfold applyAll at h
    rcases client.applyFull_cases state validate
      with ⟨error, hfull⟩ | ⟨hconnection, next, hfull, hmoves, hthere⟩
    · rw [hfull] at h
      cases h
    · rw [hfull] at h
      obtain ⟨⟨last, rest⟩, hrest, heq⟩ := map_eq_ok.mp h
      cases heq
      obtain ⟨hw', hc, hreceipts, hkept, hmembers⟩ := ih (hmoves.keeps_written hw) hrest
      refine ⟨hw', hc.trans hmoves.connection, by rw [hreceipts, List.map_cons], fun s hs => ?_, ?_⟩
      · exact hkept s (hs.moves hw hmoves)
      · intro m hm
        rcases List.mem_cons.mp hm with rfl | hm
        · exact ⟨hconnection, hkept m ⟨_, hthere, .inl rfl⟩⟩
        · exact ⟨(hmembers m hm).1.trans hmoves.connection, (hmembers m hm).2⟩

/-! ### Backed publications -/

/-- The chunks, one for each index, that brought the members of a publication. -/
structure Backing (delivered : GroupChunk P → Prop) (fence : GroupFence)
    (members : List (FullState P)) (chunks : List (GroupChunk P)) : Prop where
  delivered : ∀ chunk ∈ chunks, delivered chunk
  publication : ∀ chunk ∈ chunks, chunk.publication = fence.publication ∧
    chunk.endTick = fence.endTick ∧ chunk.manifest = fence.manifest ∧ chunk.count = chunks.length
  indices : (chunks.map fun chunk => chunk.index) = List.range chunks.length
  members : (chunks.flatMap fun chunk => chunk.members) = members

/-- Slots that are all filled, each by a chunk of its index, are filled by a list of chunks. -/
theorem exists_chunks {slots : List (Option (List (FullState P)))}
    (hfull : slots.any Option.isNone = false) {Q : GroupChunk P → Prop} {n : ℕ}
    (h : ∀ i members, slots[i]? = some (some members) →
      ∃ chunk, Q chunk ∧ chunk.index = n + i ∧ chunk.members = members) :
    ∃ chunks : List (GroupChunk P), (∀ chunk ∈ chunks, Q chunk) ∧ chunks.length = slots.length ∧
      (chunks.map fun chunk => chunk.index) = List.range' n slots.length ∧
      (chunks.flatMap fun chunk => chunk.members) = (slots.filterMap id).flatten := by
  induction slots generalizing n with
  | nil => exact ⟨[], by simp, rfl, rfl, rfl⟩
  | cons slot slots ih =>
    rw [List.any_cons, Bool.or_eq_false_iff] at hfull
    obtain ⟨members, rfl⟩ : ∃ members, slot = some members := by
      cases slot with
      | none => cases hfull.1
      | some members => exact ⟨members, rfl⟩
    obtain ⟨first, hQ, hindex, hmembers⟩ := h 0 members rfl
    obtain ⟨rest, hrest, hlength, hindices, hflat⟩ := ih hfull.2 (n := n + 1) fun i members hi => by
      obtain ⟨chunk, hQ, hindex, hmembers⟩ := h (i + 1) members hi
      exact ⟨chunk, hQ, by omega, hmembers⟩
    refine ⟨first :: rest, List.forall_mem_cons.mpr ⟨hQ, hrest⟩, by simp [hlength], ?_, ?_⟩
    · rw [List.map_cons, hindices, hindex, Nat.add_zero]
      rfl
    · rw [List.flatMap_cons, hflat, hmembers]
      rfl

/-- Everything an assembler has staged or published was delivered, and what it published the client
has retained. -/
structure Backed (delivered : GroupChunk P → Prop) (s : Station P) : Prop where
  written : s.client.Written
  slot : ∀ (g : ℕ) (assembly : Assembly P) (fence : GroupFence),
    s.assembler.assemblies[g]? = some assembly → s.assembler.fences[g]? = some fence →
    ∀ i members, assembly.chunks[i]? = some (some members) → ∃ chunk,
      (delivered chunk ∧ chunk.publication = fence.publication ∧ chunk.endTick = assembly.endTick ∧
        chunk.manifest = assembly.manifest ∧ chunk.count = assembly.chunks.length) ∧
      chunk.index = i ∧ chunk.members = members
  published : ∀ (g : ℕ) (fence : GroupFence) receipts, s.assembler.fences[g]? = some fence →
    fence.receipts = some receipts → ∃ members chunks, Backing delivered fence members chunks ∧
      receipts = (members.map fun state => state.receipt) ∧
      (members.map fun state => state.scope).Perm fence.manifest ∧
      GroupAssembler.Ordered fence.manifest ∧ (∀ m ∈ members, m.endTick = fence.endTick) ∧
      s.assembler.connection ≤ s.client.connection ∧ (s.client.connection = s.assembler.connection →
        ∀ m ∈ members, s.client.Retained m)

namespace Backed
variable {delivered : GroupChunk P → Prop} {s : Station P}

/-- Dropped assemblies. -/
theorem drop {a : GroupAssembler P} (h : Backed delivered s)
    (hc : a.connection = s.assembler.connection) (hf : a.fences = s.assembler.fences)
    (ha : ∀ (g : ℕ) (assembly : Assembly P), a.assemblies[g]? = some assembly →
      s.assembler.assemblies[g]? = some assembly) : Backed delivered { s with assembler := a } where
  written := h.written
  slot g assembly fence hg hfence := h.slot g assembly fence (ha g assembly hg) (hf ▸ hfence)
  published g fence receipts hfence := by
    dsimp only
    rw [hc]
    exact h.published g fence receipts (hf ▸ hfence)

variable {client : ClientScopes P}

/-- Messages for the client alone. -/
theorem moves {m : Message P} (h : Backed delivered s)
    (hm : s.client.Moves m client) : Backed delivered { s with client } where
  written := hm.keeps_written h.written
  slot := h.slot
  published g fence receipts hfence hr := by
    obtain ⟨members, chunks, hb, hreceipts, hperm, hnodup, htick, hle, hretained⟩ :=
      h.published g fence receipts hfence hr
    dsimp only
    rw [hm.connection]
    exact ⟨members, chunks, hb, hreceipts, hperm, hnodup, htick, hle,
      fun heq m hin => (hretained heq m hin).moves h.written hm⟩

/-- A client that moves to a later connection has no proofs left. -/
theorem reset (h : Backed delivered s) (connection : ℕ) :
    Backed delivered { s with client := (s.client.reset connection).1 } := by
  unfold ClientScopes.reset
  split_ifs with hstale
  · exact h
  · refine ⟨fun i r hr => ?_, h.slot, fun g fence receipts hfence hr => ?_⟩
    · simp at hr
    · obtain ⟨members, chunks, hb, hreceipts, hperm, hnodup, htick, hle, -⟩ :=
        h.published g fence receipts hfence hr
      dsimp only
      exact ⟨members, chunks, hb, hreceipts, hperm, hnodup, htick, by omega, fun heq => by omega⟩

section staged
variable {chunk : GroupChunk P} {nowMs startedMs groupBytes bytes : ℕ} {validate : P → Bool}
  {existing replaced : Option (Assembly P)}

theorem stage (h : Backed delivered s) (hsound : s.assembler.Sound) (hd : delivered chunk)
    (hs : s.assembler.Staging chunk nowMs validate existing replaced startedMs groupBytes bytes) :
    Backed delivered
      { s with assembler := (s.assembler.stage chunk existing startedMs groupBytes bytes).1 } where
  written := h.written
  slot g assembly fence hg hfence := by
    rw [GroupAssembler.stage_assemblies] at hg
    rw [GroupAssembler.stage_fences] at hfence
    split_ifs at hg hfence with heq
    · cases hg
      cases hfence
      obtain ⟨hmanifest, htick, -, hlength, -, -⟩ := hs.staged
      rw [hmanifest, htick, hlength]
      intro i members hi
      cases existing with
      | none =>
        have hi : ((List.replicate chunk.count none).set chunk.index (some chunk.members))[i]? =
          some (some members) := hi
        rw [List.getElem?_set] at hi
        split_ifs at hi with hindex
        · cases hi
          exact ⟨chunk, ⟨hd, rfl, rfl, rfl, rfl⟩, hindex, rfl⟩
        · rw [List.getElem?_replicate] at hi
          split_ifs at hi
          cases hi
      | some old =>
        have hi : (old.chunks.set chunk.index (some chunk.members))[i]? = some (some members) := hi
        rw [List.getElem?_set] at hi
        split_ifs at hi with hindex
        · cases hi
          exact ⟨chunk, ⟨hd, rfl, rfl, rfl, rfl⟩, hindex, rfl⟩
        · -- the other slots are those of the same publication
          rcases hs.opens.existing with ⟨hold, -, -, hsame⟩ | ⟨hnone, -⟩
          · subst heq
            obtain ⟨fence, hfence, -⟩ := hsound.fenced _ old hold.symm
            obtain ⟨htick', hlength', hmanifest', -⟩ := hs.fits old rfl
            obtain ⟨other, ⟨hd', hp, ht, hm, hcount⟩, hrest⟩ :=
              h.slot _ old fence hold.symm hfence i members hi
            exact ⟨other, ⟨hd', hp.trans (hsame fence hfence).1.symm, ht.trans htick',
              hm.trans hmanifest', hcount.trans hlength'⟩, hrest⟩
          · cases hnone
    · exact h.slot g assembly fence hg hfence
  published g fence receipts hfence hr := by
    rw [GroupAssembler.stage_fences] at hfence
    split_ifs at hfence
    · cases hfence
      cases hr
    · exact h.published g fence receipts hfence hr

end staged

variable [DecidableEq P] [Payload P]

/-- A whole assembly that the client accepts. -/
theorem publish {g : ℕ} {assembly : Assembly P} {fence : GroupFence} {validate : P → Bool}
    {receipts : List StateReceipt} (h : Backed delivered s) (hsound : s.assembler.Sound)
    (hg : s.assembler.assemblies[g]? = some assembly) (hfence : s.assembler.fences[g]? = some fence)
    (hfull : assembly.chunks.any Option.isNone = false)
    (hlength : assembly.members.length = assembly.manifest.length)
    (hnonempty : assembly.manifest ≠ [])
    (hvalid : ∀ scope ∈ assembly.manifest, scope.connection = s.assembler.connection)
    (happly : GroupAssembler.applyAll validate s.client assembly.members = .ok (client, receipts)) :
    Backed delivered ⟨{ s.assembler.drop g assembly with
      fences := s.assembler.fences.insert g { fence with receipts := some receipts } },
      client⟩ := by
  obtain ⟨hw, hconnection, hreceipts, hkept, hmembers⟩ :=
    GroupAssembler.applyAll_retained h.written happly
  have hassembly := hsound.assembly g assembly hg
  have hperm := hassembly.perm hlength
  refine ⟨hw, fun g' found fence' hfound hfence' => ?_, fun g' fence' receipts' hfence' hr => ?_⟩
  · change (s.assembler.assemblies.erase g)[g']? = some found at hfound
    rw [lookup_erase] at hfound
    rw [lookup_insert] at hfence'
    split_ifs at hfound hfence'
    exact h.slot g' found fence' hfound hfence'
  · rw [lookup_insert] at hfence'
    split_ifs at hfence' with heq
    · cases hfence'
      cases hr
      obtain ⟨fence', hfence', -, htick, hmanifest⟩ := hsound.fenced g assembly hg
      rw [hfence, Option.some.injEq] at hfence'
      subst hfence'
      obtain ⟨chunks, hQ, hcount, hindices, hflat⟩ :=
        exists_chunks (n := 0) hfull fun i members hi => by
        rw [Nat.zero_add]
        exact h.slot g assembly fence hg hfence i members hi
      refine ⟨assembly.members, chunks, ⟨fun chunk hc => (hQ chunk hc).1, fun chunk hc => ?_,
        ?_, hflat⟩, hreceipts, hmanifest ▸ hperm, hmanifest ▸ hassembly.manifest,
        fun m hm => ((hassembly.member m hm).2).trans htick.symm, ?_,
        fun _ m hm => (hmembers m hm).2⟩
      · obtain ⟨-, hp, ht, hm, hn⟩ := hQ chunk hc
        exact ⟨hp, ht.trans htick.symm, hm.trans hmanifest.symm, hn.trans hcount.symm⟩
      · rw [hindices, hcount, List.range_eq_range']
      · -- some member was accepted, so the client is on the connection of the manifest
        obtain ⟨m, hm⟩ := List.exists_mem_of_ne_nil assembly.members (by
          rintro hnil
          rw [hnil] at hlength
          exact hnonempty (List.length_eq_zero_iff.mp hlength.symm))
        have hscope := hvalid m.scope (hassembly.member m hm).1
        rw [(hmembers m hm).1] at hscope
        exact (hconnection.trans hscope).ge
    · obtain ⟨members, chunks, hb, hreceipts', hperm', hordered, htick, hle, hretained⟩ :=
        h.published g' fence' receipts' hfence' hr
      rw [hconnection]
      exact ⟨members, chunks, hb, hreceipts', hperm', hordered, htick, hle,
        fun hc m hm => hkept m (hretained hc m hm)⟩

variable [StateLayout P]

theorem receiveChunk {chunk : GroupChunk P} {nowMs : ℕ} {validate : P → Bool}
    (h : Backed delivered s) (hsound : s.assembler.Sound) (hnow : s.assembler.nowMs = nowMs)
    (hd : delivered chunk) :
    Backed delivered ⟨(s.assembler.receiveChunk chunk nowMs s.client validate).1,
      (s.assembler.receiveChunk chunk nowMs s.client validate).2.1⟩ := by
  have hr := s.assembler.receiveChunk_received chunk nowMs s.client validate
  generalize s.assembler.receiveChunk chunk nowMs s.client validate = result at hr
  cases hr with
  | refused | repeated | duplicate => exact h
  | staged existing replaced startedMs groupBytes bytes hstaging =>
    have hstaged := h.stage hsound hd hstaging
    have hsound' := hsound.stage hnow hstaging
    obtain ⟨hmanifest, -⟩ := hstaging.staged
    obtain ⟨-, hc⟩ | ⟨-, error, -, hc⟩ | ⟨hfull, hlength, client', receipts, happly, hc⟩ :=
      GroupAssembler.complete_cases (s.assembler.stage chunk existing startedMs groupBytes bytes).1
        (s.assembler.stage chunk existing startedMs groupBytes bytes).2 chunk s.client validate
    · rw [hc]
      exact hstaged
    · rw [hc]
      refine hstaged.drop rfl rfl fun g assembly hg => ?_
      change (ExtTreeMap.erase _ _)[g]? = some assembly at hg
      rw [lookup_erase] at hg
      split_ifs at hg
      exact hg
    · rw [hc]
      refine hstaged.publish hsound' ((GroupAssembler.stage_assemblies _).trans (if_pos rfl))
        ((GroupAssembler.stage_fences _).trans (if_pos rfl)) hfull hlength ?_ ?_ happly
      · rw [hmanifest]
        exact hstaging.screen.nonempty
      · intro scope hscope
        rw [hmanifest] at hscope
        exact (validateScope_eq_none.mp (hstaging.screen.valid scope hscope)).1

theorem step {action : Station.Action P} (h : Backed delivered s) (hsound : s.assembler.Sound)
    (hd : ∀ chunk nowMs validate, action = .receive chunk nowMs validate → delivered chunk) :
    Backed delivered (s.step action) := by
  cases action with
  | receive chunk nowMs validate =>
    change Backed delivered ⟨(s.assembler.receive chunk nowMs s.client validate).1,
      (s.assembler.receive chunk nowMs s.client validate).2.1⟩
    rcases s.assembler.receive_cases chunk nowMs s.client validate with ⟨-, hr⟩ | ⟨hnow, hr⟩
    · rw [hr]
      exact h
    · rw [hr]
      have hexpired :=
        h.drop (s.assembler.expired_connection nowMs) (s.assembler.expired_fences nowMs)
        fun g assembly => GroupAssembler.expired_assemblies
      refine hexpired.receiveChunk (hsound.expired nowMs) ?_ (hd _ _ _ rfl)
      obtain ⟨count, hexpire⟩ := GroupAssembler.expire_expired hnow
      obtain ⟨-, heq⟩ := GroupAssembler.expire_ok hexpire
      rw [heq]
  | expire nowMs =>
    exact h.drop (s.assembler.expired_connection nowMs) (s.assembler.expired_fences nowMs)
      fun g assembly => GroupAssembler.expired_assemblies
  | deliver m validate => exact h.moves (s.client.apply_moves m validate)
  | reset connection => exact h.reset connection

theorem run {actions : List (Station.Action P)} (h : Backed delivered s)
    (hsound : s.assembler.Sound) (hd : ∀ chunk nowMs validate, .receive chunk nowMs validate ∈
      actions → delivered chunk) :
    Backed delivered (Lib.run Station.step s actions) := by
  induction actions generalizing s with
  | nil => exact h
  | cons action actions ih =>
    refine ih (h.step hsound fun chunk nowMs validate heq => ?_) (Station.sound_step hsound action)
      fun chunk nowMs validate hmem => hd chunk nowMs validate (List.mem_cons_of_mem _ hmem)
    exact hd chunk nowMs validate (heq ▸ List.mem_cons_self)

end Backed

/-! ### Proofs -/

/-- What a proof has checked. -/
theorem GroupAssembler.publishedGroup_some {a : GroupAssembler P} {g : ℕ}
    {proof : PublishedGroup} (h : publishedGroup a g client = some proof) :
    client.connection = a.connection ∧ proof.manifest ≠ [] ∧
      ∃ (fence : GroupFence) (receipts : List StateReceipt), a.fences[g]? = some fence ∧
        fence.receipts = some receipts ∧ fence.publication = proof.publication ∧
        fence.manifest = proof.manifest ∧ ∀ scope ∈ proof.manifest, ∃ state,
          client.state scope.entity = some state ∧ state.scope = scope ∧
          state.endTick = proof.endTick ∧ state.receipt ∈ receipts := by
  unfold publishedGroup at h
  split_ifs at h with hconnection
  obtain ⟨fence, hfence, h⟩ := Option.bind_eq_some_iff.mp h
  obtain ⟨receipts, hreceipts, h⟩ := Option.bind_eq_some_iff.mp h
  split at h
  · cases h
  · rename_i first rest hmanifest
    split_ifs at h
    obtain ⟨leading, -, h⟩ := Option.bind_eq_some_iff.mp h
    split_ifs at h with hall
    cases h
    refine ⟨not_not.mp hconnection, by simp [hmanifest], fence, receipts, hfence,
      hreceipts, rfl, rfl, fun scope hscope => ?_⟩
    have hany := List.all_eq_true.mp hall scope hscope
    cases hstate : client.state scope.entity with
    | none => simp [hstate] at hany
    | some state => exact ⟨state, rfl, by simpa [hstate] using hany⟩

/-- A lookup that finds something of every element. -/
theorem mapM_of_forall {α β : Type} {f : α → Option β} {g : β → α} {Q : β → Prop} {xs : List α}
    (h : ∀ x ∈ xs, ∃ y, f x = some y ∧ g y = x ∧ Q y) :
    ∃ ys, xs.mapM f = some ys ∧ ys.map g = xs ∧ ∀ y ∈ ys, Q y := by
  induction xs with
  | nil => exact ⟨[], rfl, rfl, by simp⟩
  | cons x xs ih =>
    rw [List.forall_mem_cons] at h
    obtain ⟨⟨y, hy, hg, hQ⟩, hrest⟩ := h
    obtain ⟨ys, hys, hmap, hall⟩ := ih hrest
    exact ⟨y :: ys, by simp [List.mapM_cons, hy, hys], by rw [List.map_cons, hg, hmap],
      List.forall_mem_cons.mpr ⟨hQ, hall⟩⟩

/-- The states of a proof are the members of delivered chunks of its publication. -/
theorem Backed.whole {delivered : GroupChunk P → Prop} {s : Station P}
    (hbacked : Backed delivered s) {g : ℕ} {proof : GroupAssembler.PublishedGroup}
    (hproof : GroupAssembler.publishedGroup s.assembler g s.client = some proof) :
    GroupAssembler.Ordered proof.manifest ∧ ∃ states, proof.states s.client = some states ∧
      (states.map fun state => state.scope) = proof.manifest ∧
      (∀ state ∈ states, state.endTick = proof.endTick) ∧
      ∃ chunks : List (GroupChunk P),
        (∀ chunk ∈ chunks, delivered chunk ∧
          chunk.publication = proof.publication ∧ chunk.endTick = proof.endTick ∧
          chunk.manifest = proof.manifest ∧ chunk.count = chunks.length) ∧
        (chunks.map fun chunk => chunk.index) = List.range chunks.length ∧
        states.Perm (chunks.flatMap fun chunk => chunk.members) := by
  obtain ⟨hconnection, hnonempty, fence, receipts, hfence, hreceipts, hpublication, hmanifest,
      hfound⟩ :=
    GroupAssembler.publishedGroup_some hproof
  obtain ⟨members, chunks, hb, rfl, hperm, hordered, htick, -, hretained⟩ :=
    hbacked.published g fence receipts hfence hreceipts
  -- what is found under a receipt of the publication is the member itself
  have hmember : ∀ scope ∈ proof.manifest, ∃ state, s.client.state scope.entity = some state ∧
      state.scope = scope ∧ state.endTick = proof.endTick ∧ state ∈ members := by
    intro scope hscope
    obtain ⟨state, hstate, hs, ht, hr⟩ := hfound scope hscope
    obtain ⟨m, hm, heq⟩ := List.mem_map.mp hr
    have hsame : m.scope = state.scope := congrArg StateReceipt.scope heq
    obtain rfl := (hretained hconnection m hm).eq_of_receipt hbacked.written
      (by rw [hsame, hs]; exact hstate) heq.symm
    exact ⟨state, hstate, hs, ht, hm⟩
  obtain ⟨states, hstates, hscopes, hall⟩ := mapM_of_forall hmember
  have hticks : proof.endTick = fence.endTick := by
    obtain ⟨scope, hscope⟩ := List.exists_mem_of_ne_nil _ hnonempty
    obtain ⟨state, -, -, ht, hm⟩ := hmember scope hscope
    exact ht.symm.trans (htick state hm)
  rw [hmanifest] at hperm hordered
  refine ⟨hordered, states, hstates, hscopes, fun state hs => (hall state hs).1, chunks,
    fun chunk hc => ?_, hb.indices, ?_⟩
  · obtain ⟨hp, ht, hm, hn⟩ := hb.publication chunk hc
    exact ⟨hb.delivered chunk hc, hp.trans hpublication, ht.trans hticks.symm,
      hm.trans hmanifest, hn⟩
  · rw [hb.members]
    have hdistinct : states.Nodup := (hscopes ▸ hordered.indices.of_map).of_map
    refine (List.subperm_of_subset hdistinct fun state hs => (hall state hs).2).perm_of_length_le ?_
    have hlength := hperm.length_eq
    rw [← hscopes, List.length_map, List.length_map] at hlength
    exact hlength.le

variable [DecidableEq P] [Payload P] [StateLayout P]

/-- Every run of a new assembler and a new client is backed by what it received. -/
theorem backed_run {connection connection' : ℕ} {limits : GroupLimits} {scopeLimits : ScopeLimits}
    {start : GroupAssembler P} (hnew : GroupAssembler.new connection limits = .ok start)
    (hclient : ClientScopes.new connection' scopeLimits = .ok client)
    (actions : List (Station.Action P)) :
    Backed (fun chunk => ∃ nowMs validate, .receive chunk nowMs validate ∈ actions)
      (run Station.step ⟨start, client⟩ actions) := by
  have hstart : Backed (fun chunk => ∃ nowMs validate, .receive chunk nowMs validate ∈ actions)
      (⟨start, client⟩ : Station P) := by
    obtain ⟨hrecords, -⟩ := ClientScopes.new_ok hclient
    unfold GroupAssembler.new at hnew
    split_ifs at hnew
    cases hnew
    exact ⟨fun i r hr => by simp [hrecords] at hr, by simp, by simp⟩
  exact hstart.run (GroupAssembler.sound_new hnew) fun chunk nowMs validate hmem =>
    ⟨nowMs, validate, hmem⟩

/-- **A proof is never torn.**  For a new assembler and a new client, after any chunks, expiries and
messages: the states of a proof are all there, one for each scope of the manifest and at one tick,
and they are exactly the members of chunks of its publication that were delivered, one chunk for
each index. -/
theorem published_group_whole {connection connection' : ℕ} {limits : GroupLimits}
    {scopeLimits : ScopeLimits} {start : GroupAssembler P} {client : ClientScopes P}
    (hnew : GroupAssembler.new connection limits = .ok start)
    (hclient : ClientScopes.new connection' scopeLimits = .ok client)
    (actions : List (Station.Action P)) (g : ℕ) (proof : GroupAssembler.PublishedGroup) :
    let s := run Station.step ⟨start, client⟩ actions
    GroupAssembler.publishedGroup s.assembler g s.client = some proof →
    ∃ states, proof.states s.client = some states ∧
      (states.map fun state => state.scope) = proof.manifest ∧
      (∀ state ∈ states, state.endTick = proof.endTick) ∧
      ∃ chunks : List (GroupChunk P),
        (∀ chunk ∈ chunks, (∃ nowMs validate, .receive chunk nowMs validate ∈ actions) ∧
          chunk.publication = proof.publication ∧ chunk.endTick = proof.endTick ∧
          chunk.manifest = proof.manifest ∧ chunk.count = chunks.length) ∧
        (chunks.map fun chunk => chunk.index) = List.range chunks.length ∧
        states.Perm (chunks.flatMap fun chunk => chunk.members) := by
  intro s hproof
  exact ((backed_run hnew hclient actions).whole hproof).2

/-- The two chunks of `pairPublication`, the second one first. -/
def pairActions : List (Station.Action (List UInt8)) :=
  [.receive (pairChunk 1) 0 fun _ => true, .receive (pairChunk 0) 5 fun _ => true]

theorem published_group_whole_pair :
    ∃ start : GroupAssembler (List UInt8), GroupAssembler.new 1 GroupLimits.default = .ok start ∧
      ClientScopes.new 1 ScopeLimits.default = .ok emptyClient ∧
      let s := run Station.step ⟨start, emptyClient⟩ pairActions
      let proof : GroupAssembler.PublishedGroup :=
        ⟨pairPublication.key, 1, pairPublication.manifest⟩
      GroupAssembler.publishedGroup s.assembler 1 s.client = some proof ∧
      ∃ states, proof.states s.client = some states ∧
        (states.map fun state => state.scope) = proof.manifest := by
  have hnew : GroupAssembler.new 1 GroupLimits.default =
    .ok (⟨1, GroupLimits.default, ∅, ∅, 0, 0⟩ : GroupAssembler (List UInt8)) := rfl
  have hclient : ClientScopes.new 1 ScopeLimits.default = .ok emptyClient := rfl
  have hproof : GroupAssembler.publishedGroup
      (run Station.step ⟨⟨1, GroupLimits.default, ∅, ∅, 0, 0⟩, emptyClient⟩ pairActions).assembler 1
      (run Station.step ⟨⟨1, GroupLimits.default, ∅, ∅, 0, 0⟩, emptyClient⟩ pairActions).client =
      some ⟨pairPublication.key, 1, pairPublication.manifest⟩ := by decide +kernel
  obtain ⟨states, hstates, hscopes, -⟩ := published_group_whole hnew hclient pairActions 1 _ hproof
  exact ⟨_, hnew, hclient, hproof, states, hstates, hscopes⟩

end Net
