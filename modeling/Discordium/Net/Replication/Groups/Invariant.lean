import Discordium.Lib.Fallible
import Discordium.Net.Replication.Groups.Assembler

/-!
# Net — Replication — Groups — Invariant

What a chunk can do to an assembler, once (`receiveChunk_received`), and what every assembler keeps
(`Sound`): the bytes are the sum of those of the assemblies and within the limits, every assembly
stands behind the fence of its group, and the members it holds are different scopes of its manifest.
-/

namespace Net
open Lib
open Std (ExtTreeMap)

namespace GroupAssembler
variable {P : Type}

/-! ### What the checks have checked -/

/-- The scopes of a manifest are in order, and no entity index is there twice. -/
structure Ordered (manifest : List ScopeIdentity) : Prop where
  sorted : manifest.Pairwise fun a b => a.path < b.path
  indices : (manifest.map fun scope => scope.entity.index).Nodup

/-- A chunk that passed the checks of its own. -/
structure Screen (connection : ℕ) (chunk : GroupChunk P) (validate : P → Bool) : Prop where
  connection_eq : chunk.publication.connection = connection
  index_lt : chunk.index < chunk.count
  count_le : chunk.count ≤ chunk.manifest.length
  manifest : Ordered chunk.manifest
  nonempty : chunk.manifest ≠ []
  valid : ∀ scope ∈ chunk.manifest, validateScope scope connection = none
  members : (chunk.members.map fun state => state.scope).Nodup
  member : ∀ state ∈ chunk.members, state.scope ∈ chunk.manifest ∧ state.endTick = chunk.endTick ∧
    state.validateIdentity connection = none ∧ validate state.payload = true

variable {connection memberBytes : ℕ}

theorem screenManifest_none {previous : Option ScopeIdentity} {indices : List ℕ}
    {scopes : List ScopeIdentity} (h : screenManifest connection previous indices scopes = none) :
    Ordered scopes ∧ (∀ p ∈ previous, ∀ scope ∈ scopes, p.path < scope.path) ∧
      (∀ scope ∈ scopes, scope.entity.index ∉ indices ∧ validateScope scope connection = none) := by
  induction scopes generalizing previous indices with
  | nil => exact ⟨⟨.nil, List.nodup_nil⟩, by simp, by simp⟩
  | cons scope scopes ih =>
    unfold screenManifest at h
    split at h
    · cases h
    · rename_i hvalid
      split_ifs at h with hconflict
      obtain ⟨⟨hsorted, hnodup⟩, hafter, hall⟩ := ih h
      push Not at hconflict
      have hfirst : ∀ p ∈ previous, p.path < scope.path := by
        rintro p rfl
        simpa using hconflict.2
      refine ⟨⟨List.pairwise_cons.mpr ⟨hafter scope rfl, hsorted⟩,
        List.nodup_cons.mpr ⟨fun hmem => ?_, hnodup⟩⟩, ?_, ?_⟩
      · obtain ⟨other, hother, heq⟩ := List.mem_map.mp hmem
        exact (hall other hother).1 (heq ▸ List.mem_cons_self)
      · intro p hp s hs
        rcases List.mem_cons.mp hs with rfl | hs
        · exact hfirst p hp
        · exact (hfirst p hp).trans (hafter scope rfl s hs)
      · intro s hs
        rcases List.mem_cons.mp hs with rfl | hs
        · exact ⟨hconflict.1, hvalid⟩
        · exact ⟨fun hin => (hall s hs).1 (List.mem_cons_of_mem _ hin), (hall s hs).2⟩

theorem screenMembers_ok [Payload P] {chunk : GroupChunk P} {bytes total : ℕ}
    {validate : P → Bool} {ids : List ScopeIdentity} {states : List (FullState P)}
    (h : screenMembers chunk connection validate ids bytes states = .ok total) :
    (states.map fun state => state.scope).Nodup ∧
      ∀ state ∈ states, state.scope ∉ ids ∧ state.scope ∈ chunk.manifest ∧
        state.endTick = chunk.endTick ∧ state.validateIdentity connection = none ∧
        validate state.payload = true := by
  induction states generalizing ids bytes with
  | nil => simp
  | cons state states ih =>
    unfold screenMembers at h
    split at h
    · cases h
    · rename_i hvalid
      split_ifs at h with hconflict hpayload
      split at h
      · cases h
      · obtain ⟨hnodup, hall⟩ := ih h
        push Not at hconflict
        refine ⟨List.nodup_cons.mpr ⟨fun hmem => ?_, hnodup⟩, ?_⟩
        · obtain ⟨other, hother, heq⟩ := List.mem_map.mp hmem
          exact (hall other hother).1 (heq ▸ List.mem_cons_self)
        · intro s hs
          rcases List.mem_cons.mp hs with rfl | hs
          · exact ⟨hconflict.2.2, hconflict.2.1, hconflict.1, hvalid, by simpa using hpayload⟩
          · obtain ⟨hids, hrest⟩ := hall s hs
            exact ⟨fun hin => hids (List.mem_cons_of_mem _ hin), hrest⟩

theorem screen_ok [Payload P] [StateLayout P] {a : GroupAssembler P} {chunk : GroupChunk P}
    {client : ClientScopes P} {validate : P → Bool}
    (h : a.screen chunk client validate = .ok memberBytes) :
    Screen a.connection chunk validate := by
  unfold screen at h
  dsimp only at h
  split_ifs at h with hconnection hshape
  split at h
  · cases h
  · rename_i hmanifest
    split at h
    · cases h
    · obtain ⟨hordered, -, hvalid⟩ := screenManifest_none hmanifest
      obtain ⟨hmembers, hmember⟩ := screenMembers_ok h
      push Not at hconnection hshape
      exact
        { connection_eq := hconnection.1
          index_lt := by omega
          count_le := by omega
          manifest := hordered
          nonempty := hshape.2.2.1
          valid := fun scope hs => (hvalid scope hs).2
          members := hmembers
          member := fun state hs => (hmember state hs).2 }

/-- What a fence lets through to be staged. -/
structure Opens (a : GroupAssembler P) (chunk : GroupChunk P) (nowMs startedMs : ℕ)
    (existing replaced : Option (Assembly P)) : Prop where
  fence : (a.fences[chunk.publication.group]? = none ∧ a.fences.size < a.limits.knownGroups) ∨
    ∃ fence : GroupFence, a.fences[chunk.publication.group]? = some fence ∧ ¬conflicts chunk fence ∧
      ¬precedes chunk.publication fence.publication ∧
      (fence.receipts = none → (a.assemblies[chunk.publication.group]?).isSome)
  /-- The chunk goes on with the assembly of its own publication, or starts its own in place of
  another. -/
  existing : (existing = a.assemblies[chunk.publication.group]? ∧ replaced = none ∧
      startedMs = nowMs ∧ ∀ fence : GroupFence, a.fences[chunk.publication.group]? = some fence →
        chunk.publication = fence.publication ∧ fence.receipts = none) ∨
    (existing = none ∧ replaced = a.assemblies[chunk.publication.group]? ∧
      startedMs = ((a.assemblies[chunk.publication.group]?).map (·.startedMs)).getD nowMs ∧
      ∃ fence : GroupFence, a.fences[chunk.publication.group]? = some fence ∧
        chunk.publication ≠ fence.publication)

theorem checkGroup_fresh [DecidableEq P] {a : GroupAssembler P} {chunk : GroupChunk P}
    {nowMs startedMs : ℕ} {client : ClientScopes P} {replace : Bool}
    (h : a.checkGroup chunk nowMs client = .ok (.fresh replace startedMs)) :
    Opens a chunk nowMs startedMs
      (if replace then none else a.assemblies[chunk.publication.group]?)
      (if replace then a.assemblies[chunk.publication.group]? else none) := by
  unfold checkGroup at h
  dsimp only at h
  split at h
  · rename_i hfence
    split_ifs at h with hroom
    cases h
    exact ⟨.inl ⟨hfence, not_le.mp hroom⟩,
      .inl ⟨rfl, rfl, rfl, fun fence hf => by simp [hfence] at hf⟩⟩
  · rename_i fence hfence
    split at h
    · cases h
    split at h
    · cases h
    split at h
    · cases h
    rename_i hconflict hprecedes hexpired
    split at h
    · rename_i hkey
      split at h
      · unfold acknowledge at h
        split_ifs at h
        cases h
      · rename_i hreceipts
        split_ifs at h with hcontains
        cases h
        have hsome : (a.assemblies[chunk.publication.group]?).isSome := by
          rw [← contains_eq_isSome]
          simpa using hcontains
        refine ⟨.inr ⟨fence, hfence, hconflict, hprecedes, fun _ => hsome⟩,
          .inl ⟨rfl, rfl, rfl, ?_⟩⟩
        intro other hother
        rw [hfence, Option.some.injEq] at hother
        exact hother ▸ ⟨hkey, hreceipts⟩
    · rename_i hkey
      cases h
      refine ⟨.inr ⟨fence, hfence, hconflict, hprecedes, fun hnone => ?_⟩,
        .inr ⟨rfl, rfl, rfl, fence, hfence, hkey⟩⟩
      rw [← contains_eq_isSome]
      simpa [hnone] using hexpired

theorem checkGroup_acknowledged [DecidableEq P] {a : GroupAssembler P} {chunk : GroupChunk P}
    {nowMs : ℕ} {client : ClientScopes P} {receipts : List StateReceipt}
    (h : a.checkGroup chunk nowMs client = .ok (.acknowledged receipts)) :
    (∃ fence : GroupFence, a.fences[chunk.publication.group]? = some fence ∧
      fence.publication = chunk.publication ∧ fence.receipts = some receipts) ∧
      (∀ r ∈ receipts, ∃ state, client.state r.scope.entity = some state ∧ state.receipt = r) := by
  unfold checkGroup at h
  dsimp only at h
  split at h
  · split_ifs at h
    cases h
  · rename_i fence hfence
    split at h
    · cases h
    split at h
    · cases h
    split at h
    · cases h
    split at h
    · rename_i hkey
      split at h
      · rename_i found hreceipts
        unfold acknowledge at h
        split at h
        · cases h
        rename_i hretained
        split_ifs at h
        cases h
        refine ⟨⟨fence, hfence, hkey.symm, hreceipts⟩, fun r hr => ?_⟩
        have hany := List.all_eq_true.mp (not_not.mp hretained) r hr
        cases hstate : client.state r.scope.entity with
        | none => simp [hstate] at hany
        | some state => exact ⟨state, rfl, by simpa [hstate] using hany⟩
      · split_ifs at h
        cases h
    · cases h

/-- A chunk that is to be staged. -/
structure Staging (a : GroupAssembler P) (chunk : GroupChunk P) (nowMs : ℕ) (validate : P → Bool)
    (existing replaced : Option (Assembly P)) (startedMs groupBytes bytes : ℕ) : Prop where
  screen : Screen a.connection chunk validate
  opens : Opens a chunk nowMs startedMs existing replaced
  fits : ∀ assembly, existing = some assembly → assembly.endTick = chunk.endTick ∧
    assembly.chunks.length = chunk.count ∧ assembly.manifest = chunk.manifest ∧
    assembly.chunks[chunk.index]? = some none ∧
    ∀ s ∈ assembly.members, s.scope ∉ chunk.members.map fun state => state.scope
  room : existing = none → a.assemblies[chunk.publication.group]? = none →
    a.assemblies.size < a.limits.incomplete
  charged : ∃ added, groupBytes = (existing.map (·.bytes)).getD 0 + added ∧
    (replaced.map (·.bytes)).getD 0 ≤ a.bytes ∧
    bytes = a.bytes - (replaced.map (·.bytes)).getD 0 + added
  within : groupBytes ≤ a.limits.groupBytes ∧ bytes ≤ a.limits.stagingBytes

theorem charge_some [StateLayout P] {a : GroupAssembler P} {chunk : GroupChunk P}
    {groupBytes bytes : ℕ} {existing replaced : Option (Assembly P)}
    (h : a.charge chunk memberBytes existing replaced = some (groupBytes, bytes)) :
    (∃ added, groupBytes = (existing.map (·.bytes)).getD 0 + added ∧
      (replaced.map (·.bytes)).getD 0 ≤ a.bytes ∧
      bytes = a.bytes - (replaced.map (·.bytes)).getD 0 + added) ∧
    groupBytes ≤ a.limits.groupBytes ∧ bytes ≤ a.limits.stagingBytes := by
  unfold charge at h
  obtain ⟨manifestBytes, -, h⟩ := Option.bind_eq_some_iff.mp h
  obtain ⟨added, -, h⟩ := Option.bind_eq_some_iff.mp h
  obtain ⟨gb, hgb, h⟩ := Option.bind_eq_some_iff.mp h
  obtain ⟨b, hb, h⟩ := Option.bind_eq_some_iff.mp h
  obtain ⟨rest, hrest, hb⟩ := Option.bind_eq_some_iff.mp hb
  split_ifs at h with hlimit
  cases h
  push Not at hlimit
  refine ⟨⟨added, (checkedAdd_eq_some.mp hgb).1, ?_⟩, hlimit⟩
  unfold checkedSub at hrest
  split_ifs at hrest with hle
  cases hrest
  exact ⟨hle, (checkedAdd_eq_some.mp hb).1⟩

/-- The assembly has the chunk already. -/
theorem checkAssembly_true [DecidableEq P] {a : GroupAssembler P} {chunk : GroupChunk P}
    {existing : Option (Assembly P)} (h : a.checkAssembly chunk existing = .ok true) :
    ∃ assembly, existing = some assembly ∧ assembly.chunks[chunk.index]? = some
      (some chunk.members) := by
  cases existing with
  | none =>
    simp only [checkAssembly] at h
    split_ifs at h
    cases h
  | some assembly =>
    simp only [checkAssembly] at h
    split at h
    · cases h
    split at h
    · rename_i previous hprevious
      split_ifs at h with hsame
      exact ⟨assembly, rfl, hsame ▸ Option.join_eq_some_iff.mp hprevious⟩
    · split_ifs at h
      cases h

/-- The assembly lacks the chunk, and nothing else of it, or there is room for one. -/
theorem checkAssembly_false [DecidableEq P] {a : GroupAssembler P} {chunk : GroupChunk P}
    {existing : Option (Assembly P)} (h : a.checkAssembly chunk existing = .ok false) :
    (∀ assembly, existing = some assembly → assembly.endTick = chunk.endTick ∧
      assembly.chunks.length = chunk.count ∧ assembly.manifest = chunk.manifest ∧
      assembly.chunks[chunk.index]?.join = none ∧
      ∀ s ∈ assembly.members, s.scope ∉ chunk.members.map fun state => state.scope) ∧
    (existing = none → a.assemblies[chunk.publication.group]? = none →
      a.assemblies.size < a.limits.incomplete) := by
  cases existing with
  | none =>
    simp only [checkAssembly] at h
    split_ifs at h with hfull
    refine ⟨by simp, fun _ hnone => ?_⟩
    rw [contains_eq_isSome, hnone] at hfull
    simpa using hfull
  | some assembly =>
    simp only [checkAssembly] at h
    split at h
    · cases h
    rename_i hshape
    push Not at hshape
    split at h
    · split_ifs at h
      cases h
    · rename_i hempty
      split_ifs at h with hoverlap
      refine ⟨?_, by simp⟩
      rintro _ ⟨⟩
      refine ⟨hshape.1, hshape.2.1, hshape.2.2, hempty, fun s hs hmem => hoverlap ?_⟩
      exact List.any_eq_true.mpr ⟨s, hs, decide_eq_true hmem⟩

/-- What a chunk does to an assembler none of whose assemblies is past its deadline. -/
inductive Received [DecidableEq P] [Payload P] (a : GroupAssembler P) (chunk : GroupChunk P)
    (nowMs : ℕ) (client : ClientScopes P) (validate : P → Bool) :
    GroupAssembler P × ClientScopes P × Except ReplicationError GroupProgress → Prop where
  | refused (error : ReplicationError) :
      Received a chunk nowMs client validate (a, client, .error error)
  | repeated (fence : GroupFence) (receipts : List StateReceipt)
      (hf : a.fences[chunk.publication.group]? = some fence)
      (hp : fence.publication = chunk.publication) (hr : fence.receipts = some receipts)
      (hs : ∀ r ∈ receipts, ∃ state, client.state r.scope.entity = some state ∧ state.receipt = r) :
      Received a chunk nowMs client validate (a, client, .ok (.published receipts))
  | duplicate (assembly : Assembly P) (ha : a.assemblies[chunk.publication.group]? = some assembly)
      (hc : assembly.chunks[chunk.index]? = some (some chunk.members)) :
      Received a chunk nowMs client validate (a, client, .ok .staged)
  | staged (existing replaced : Option (Assembly P)) (startedMs groupBytes bytes : ℕ)
      (h : Staging a chunk nowMs validate existing replaced startedMs groupBytes bytes) :
      Received a chunk nowMs client validate
        ((a.stage chunk existing startedMs groupBytes bytes).1.complete
          (a.stage chunk existing startedMs groupBytes bytes).2 chunk client validate)

/-- **What a chunk can do.** -/
theorem receiveChunk_received [DecidableEq P] [Payload P] [StateLayout P] (a : GroupAssembler P)
    (chunk : GroupChunk P) (nowMs : ℕ) (client : ClientScopes P) (validate : P → Bool) :
    Received a chunk nowMs client validate (a.receiveChunk chunk nowMs client validate) := by
  unfold receiveChunk
  split
  · exact .refused _
  rename_i memberBytes hscreen
  split
  · exact .refused _
  · rename_i receipts hgroup
    obtain ⟨⟨fence, hf, hp, hr⟩, hs⟩ := checkGroup_acknowledged hgroup
    exact .repeated fence receipts hf hp hr hs
  · rename_i replace startedMs hgroup
    have hopens := checkGroup_fresh hgroup
    have hscreened := screen_ok hscreen
    dsimp only
    generalize hex : (if replace then none else a.assemblies[chunk.publication.group]?) = existing
      at hopens ⊢
    generalize (if replace then a.assemblies[chunk.publication.group]? else none) = replaced
      at hopens ⊢
    split
    · exact .refused _
    · rename_i hcheck
      obtain ⟨assembly, rfl, hchunk⟩ := checkAssembly_true hcheck
      refine .duplicate assembly ?_ hchunk
      split_ifs at hex
      exact hex
    · rename_i hcheck
      obtain ⟨hfits, hroom⟩ := checkAssembly_false hcheck
      split
      · exact .refused _
      · rename_i groupBytes bytes hcharge
        obtain ⟨hcharged, hwithin⟩ := charge_some hcharge
        refine .staged existing replaced startedMs groupBytes bytes
          ⟨hscreened, hopens, fun assembly he => ?_, hroom, hcharged, hwithin⟩
        obtain ⟨htick, hlength, hmanifest, hempty, hapart⟩ := hfits assembly he
        refine ⟨htick, hlength, hmanifest, ?_, hapart⟩
        have hlt : chunk.index < assembly.chunks.length := hlength ▸ hscreened.index_lt
        rw [List.getElem?_eq_getElem hlt] at hempty ⊢
        exact congrArg some hempty

/-- What happens to a staged chunk: something is missing, or the whole is refused, or it is
published. -/
theorem complete_cases [DecidableEq P] [Payload P] (a : GroupAssembler P) (assembly : Assembly P)
    (chunk : GroupChunk P) (client : ClientScopes P) (validate : P → Bool) :
    (assembly.chunks.any Option.isNone = true ∧
      a.complete assembly chunk client validate = (a, client, .ok .staged)) ∨
    (assembly.chunks.any Option.isNone = false ∧ ∃ error,
      (assembly.members.length ≠ assembly.manifest.length ∨
        applyAll validate client assembly.members = .error error) ∧
      a.complete assembly chunk client validate =
        (a.drop chunk.publication.group assembly, client, .error error)) ∨
    (assembly.chunks.any Option.isNone = false ∧ assembly.members.length =
      assembly.manifest.length ∧ ∃ client' receipts, applyAll validate client assembly.members =
        .ok (client', receipts) ∧ a.complete assembly chunk client validate =
          ({ a.drop chunk.publication.group assembly with
              fences := a.fences.insert chunk.publication.group
                ⟨chunk.publication, chunk.endTick, chunk.manifest, some receipts⟩ },
            client', .ok (.published receipts))) := by
  unfold complete
  dsimp only
  by_cases hany : assembly.chunks.any Option.isNone = true
  · rw [if_pos hany]
    exact .inl ⟨hany, rfl⟩
  have hall : assembly.chunks.any Option.isNone = false := Bool.eq_false_iff.mpr hany
  rw [if_neg hany]
  by_cases hlength : assembly.members.length ≠ assembly.manifest.length
  · rw [if_pos hlength]
    exact .inr (.inl ⟨hall, .incomplete, .inl hlength, rfl⟩)
  rw [if_neg hlength]
  cases happly : applyAll validate client assembly.members with
  | error error => exact .inr (.inl ⟨hall, error, .inr rfl, rfl⟩)
  | ok result => exact .inr (.inr ⟨hall, not_not.mp hlength, result.1, result.2, rfl, rfl⟩)

/-- What a chunk keeps: all that holds of the assembler with the chunk staged, also when the
assembly is then dropped or published. -/
theorem receiveChunk_keeps [DecidableEq P] [Payload P] [StateLayout P] {a : GroupAssembler P}
    {chunk : GroupChunk P} {nowMs : ℕ} {client : ClientScopes P} {validate : P → Bool}
    {I : GroupAssembler P → Prop} (ha : I a)
    (hstaged : ∀ {existing replaced startedMs groupBytes bytes},
      Staging a chunk nowMs validate existing replaced startedMs groupBytes bytes →
      ∀ staged, a.stage chunk existing startedMs groupBytes bytes = staged →
        I staged.1 ∧ I (staged.1.drop chunk.publication.group staged.2) ∧ ∀ receipts,
          I { staged.1.drop chunk.publication.group staged.2 with
            fences := staged.1.fences.insert chunk.publication.group
              ⟨chunk.publication, chunk.endTick, chunk.manifest, some receipts⟩ }) :
    I (a.receiveChunk chunk nowMs client validate).1 := by
  have hr := receiveChunk_received a chunk nowMs client validate
  generalize a.receiveChunk chunk nowMs client validate = result at hr
  cases hr with
  | refused | repeated | duplicate => exact ha
  | staged existing replaced startedMs groupBytes bytes h =>
    obtain ⟨hkept, hdropped, hpublished⟩ := hstaged h _ rfl
    obtain ⟨-, hc⟩ | ⟨-, error, -, hc⟩ | ⟨-, -, client', receipts, -, hc⟩ :=
      complete_cases (a.stage chunk existing startedMs groupBytes bytes).1
        (a.stage chunk existing startedMs groupBytes bytes).2 chunk client validate <;> rw [hc]
    · exact hkept
    · exact hdropped
    · exact hpublished _

end GroupAssembler

/-! ### The invariant -/

/-- The members an assembly holds are different scopes of its manifest, at its tick. -/
structure Assembly.Sound {P : Type} (assembly : Assembly P) : Prop where
  manifest : GroupAssembler.Ordered assembly.manifest
  members : (assembly.members.map fun state => state.scope).Nodup
  member : ∀ state ∈ assembly.members, state.scope ∈ assembly.manifest ∧
    state.endTick = assembly.endTick

/-- As many members as the manifest has scopes are one for each. -/
theorem Assembly.Sound.perm {P : Type} {assembly : Assembly P} (h : assembly.Sound)
    (hlength : assembly.members.length = assembly.manifest.length) :
    (assembly.members.map fun state => state.scope).Perm assembly.manifest := by
  refine (List.subperm_of_subset h.members fun scope hscope => ?_).perm_of_length_le ?_
  · obtain ⟨state, hstate, rfl⟩ := List.mem_map.mp hscope
    exact (h.member state hstate).1
  · rw [List.length_map, hlength]

/-- A filled slot adds its items to those of the other slots. -/
theorem flatten_set_perm {α : Type} {slots : List (Option (List α))} {i : ℕ}
    (h : slots[i]? = some none) (items : List α) :
    (((slots.set i (some items)).filterMap id).flatten).Perm
    (items ++ (slots.filterMap id).flatten) := by
  induction slots generalizing i with
  | nil => simp at h
  | cons slot slots ih =>
    cases i with
    | zero =>
      obtain rfl : slot = none := by simpa using h
      simp
    | succ i =>
      have ih := ih (by simpa using h)
      cases slot with
      | none => simpa using ih
      | some first =>
        simp only [List.set_cons_succ, List.filterMap_cons, id, List.flatten_cons]
        refine (ih.append_left first).trans ?_
        rw [← List.append_assoc, ← List.append_assoc]
        exact List.perm_append_comm.append_right _

namespace GroupAssembler
variable {P : Type}

structure Sound (a : GroupAssembler P) : Prop where
  bytes : a.bytes = total Assembly.bytes a.assemblies
  staging : a.bytes ≤ a.limits.stagingBytes
  group : ∀ (g : ℕ) (assembly : Assembly P), a.assemblies[g]? = some assembly →
    assembly.bytes ≤ a.limits.groupBytes
  incomplete : a.assemblies.size ≤ a.limits.incomplete
  known : a.fences.size ≤ a.limits.knownGroups
  age : 0 < a.limits.maxAgeMs
  young : ∀ (g : ℕ) (assembly : Assembly P), a.assemblies[g]? = some assembly →
    assembly.startedMs ≤ a.nowMs ∧ a.nowMs - assembly.startedMs < a.limits.maxAgeMs
  assembly : ∀ (g : ℕ) (assembly : Assembly P), a.assemblies[g]? = some assembly → assembly.Sound
  fenced : ∀ (g : ℕ) (assembly : Assembly P), a.assemblies[g]? = some assembly →
    ∃ fence : GroupFence, a.fences[g]? = some fence ∧ fence.receipts = none ∧
      fence.endTick = assembly.endTick ∧ fence.manifest = assembly.manifest

section sound
variable {a a' : GroupAssembler P} {chunk : GroupChunk P} {nowMs startedMs groupBytes bytes : ℕ}
  {validate : P → Bool} {existing replaced : Option (Assembly P)}

variable {count g : ℕ} {assembly : Assembly P}

theorem expire_ok (h : a.expire nowMs = .ok (a', count)) :
    a.nowMs ≤ nowMs ∧ a' = { a with
      nowMs
      assemblies := a.assemblies.filter fun _ assembly => young a.limits nowMs assembly
      bytes := a.bytes - total Assembly.bytes
        (a.assemblies.filter fun _ assembly => !young a.limits nowMs assembly) } := by
  unfold expire at h
  dsimp only at h
  split_ifs at h with hstale
  cases h
  exact ⟨not_lt.mp hstale, rfl⟩

theorem expire_lookup (h : a.expire nowMs = .ok (a', count)) :
    a'.assemblies[g]? = some assembly ↔
      a.assemblies[g]? = some assembly ∧ nowMs - assembly.startedMs < a.limits.maxAgeMs := by
  obtain ⟨-, rfl⟩ := expire_ok h
  rw [ExtTreeMap.getElem?_filter', Option.filter_eq_some_iff]
  simp [young]

theorem Sound.expire (hs : a.Sound) (h : a.expire nowMs = .ok (a', count)) : a'.Sound := by
  have hlookup : ∀ (g : ℕ) (assembly : Assembly P), a'.assemblies[g]? = some assembly →
      a.assemblies[g]? = some assembly ∧ nowMs - assembly.startedMs < a.limits.maxAgeMs :=
    fun g assembly => (expire_lookup h).mp
  obtain ⟨hnow, rfl⟩ := expire_ok h
  have hsplit := total_filter Assembly.bytes a.assemblies fun _ assembly =>
    GroupAssembler.young a.limits nowMs assembly
  rw [← hs.bytes] at hsplit
  refine
    { bytes := ?_
      staging := (Nat.sub_le _ _).trans hs.staging
      group := fun g assembly hg => hs.group g assembly (hlookup g assembly hg).1
      incomplete := ExtTreeMap.size_filter_le_size.trans hs.incomplete
      known := hs.known
      age := hs.age
      young := fun g assembly hg => ⟨?_, (hlookup g assembly hg).2⟩
      assembly := fun g assembly hg => hs.assembly g assembly (hlookup g assembly hg).1
      fenced := fun g assembly hg => hs.fenced g assembly (hlookup g assembly hg).1 }
  · dsimp only
    omega
  · exact (hs.young g assembly (hlookup g assembly hg).1).1.trans hnow

/-- The assembly a staged chunk leaves. -/
theorem Staging.staged
    (h : Staging a chunk nowMs validate existing replaced startedMs groupBytes bytes) :
    let assembly := (a.stage chunk existing startedMs groupBytes bytes).2
    assembly.manifest = chunk.manifest ∧ assembly.endTick = chunk.endTick ∧
      assembly.bytes = groupBytes ∧ assembly.chunks.length = chunk.count ∧
      assembly.chunks[chunk.index]? = some (some chunk.members) ∧
      assembly.members.Perm (chunk.members ++ (existing.map (·.members)).getD []) := by
  have hindex := h.screen.index_lt
  cases existing with
  | none =>
    have hslot : (List.replicate chunk.count (none : Option (List (FullState P))))[chunk.index]? =
        some none := by simp [hindex]
    refine ⟨rfl, rfl, rfl, by simp [stage], by simp [stage, hindex], ?_⟩
    have hperm := flatten_set_perm hslot chunk.members
    simpa [Assembly.members, stage] using hperm
  | some old =>
    obtain ⟨htick, hlength, hmanifest, hslot, -⟩ := h.fits old rfl
    refine ⟨hmanifest, htick, rfl, by simpa [stage] using hlength, ?_,
      flatten_set_perm hslot chunk.members⟩
    simp [stage, hlength, hindex]

section
variable (hs : a.Sound)
  (h : Staging a chunk nowMs validate existing replaced startedMs groupBytes bytes)
include hs h

theorem Staging.assembly_sound : (a.stage chunk existing startedMs groupBytes bytes).2.Sound := by
  obtain ⟨hmanifest, htick, -, -, -, hperm⟩ := h.staged
  have hold : ∀ old, existing = some old → a.assemblies[chunk.publication.group]? = some old := by
    rintro old rfl
    rcases h.opens.existing with ⟨he, -⟩ | ⟨he, -⟩
    · exact he.symm
    · cases he
  refine ⟨hmanifest ▸ h.screen.manifest, ?_, fun state hstate => ?_⟩
  · refine (hperm.map _).nodup_iff.mpr ?_
    rw [List.map_append]
    refine List.nodup_append.mpr ⟨h.screen.members, ?_, ?_⟩
    · cases existing with
      | none => simp
      | some old => exact (hs.assembly _ old (hold old rfl)).members
    · cases existing with
      | none => simp
      | some old =>
        rintro scope hscope other hother rfl
        obtain ⟨state, hstate, rfl⟩ := List.mem_map.mp hother
        exact (h.fits old rfl).2.2.2.2 state hstate hscope
  · rw [hmanifest, htick]
    rcases List.mem_append.mp (hperm.mem_iff.mp hstate) with hm | hm
    · exact ⟨(h.screen.member state hm).1, (h.screen.member state hm).2.1⟩
    · cases existing with
      | none => simp at hm
      | some old =>
        obtain ⟨htick', -, hmanifest', -⟩ := h.fits old rfl
        obtain ⟨hin, ht⟩ := (hs.assembly _ old (hold old rfl)).member state hm
        exact ⟨hmanifest' ▸ hin, ht.trans htick'⟩

/-- The bytes of all assemblies after a chunk is staged. -/
theorem Staging.bytes_eq :
    bytes = groupBytes + total Assembly.bytes (a.assemblies.erase chunk.publication.group) := by
  obtain ⟨added, hgroup, hle, hbytes⟩ := h.charged
  have htotal := hs.bytes
  cases hfound : a.assemblies[chunk.publication.group]? with
  | none =>
    rw [erase_of_none hfound]
    rcases h.opens.existing with ⟨he, hr, -⟩ | ⟨he, hr, -⟩ <;>
      · rw [hfound] at *
        subst he hr
        simp only [Option.map_none, Option.getD_none] at hgroup hle hbytes
        omega
  | some old =>
    rw [total_erase _ hfound] at htotal
    rcases h.opens.existing with ⟨he, hr, -⟩ | ⟨he, hr, -⟩
    · rw [hfound] at he
      subst he hr
      simp only [Option.map_none, Option.map_some, Option.getD_none, Option.getD_some]
        at hgroup hle hbytes
      omega
    · rw [hfound] at hr
      subst he hr
      simp only [Option.map_none, Option.map_some, Option.getD_none, Option.getD_some]
        at hgroup hle hbytes
      omega

end

/-- A transfer that replaces another one keeps its start. -/
theorem Staging.started
    (h : Staging a chunk nowMs validate existing replaced startedMs groupBytes bytes) :
    (∀ old, a.assemblies[chunk.publication.group]? = some old →
      (a.stage chunk existing startedMs groupBytes bytes).2.startedMs = old.startedMs) ∧
    (a.assemblies[chunk.publication.group]? = none →
      (a.stage chunk existing startedMs groupBytes bytes).2.startedMs = nowMs) := by
  rcases h.opens.existing with ⟨he, -, hstart, -⟩ | ⟨he, -, hstart, -⟩ <;> subst he hstart <;>
    refine ⟨fun old hold => ?_, fun hnone => ?_⟩
  · simp [GroupAssembler.stage, hold]
  · simp [GroupAssembler.stage, hnone]
  · simp [GroupAssembler.stage, hold]
  · simp [GroupAssembler.stage, hnone]

theorem Sound.stage (hs : a.Sound) (hnow : a.nowMs = nowMs)
    (h : Staging a chunk nowMs validate existing replaced startedMs groupBytes bytes) :
    (a.stage chunk existing startedMs groupBytes bytes).1.Sound := by
  obtain ⟨hmanifest, htick, hbytes, -⟩ := h.staged
  have hsound := h.assembly_sound hs
  have hstarted := h.started
  generalize hstage : a.stage chunk existing startedMs groupBytes bytes = staged at *
  obtain ⟨a₁, assembly⟩ := staged
  have ha₁ : a₁ = { a with
      assemblies := a.assemblies.insert chunk.publication.group assembly
      fences := a.fences.insert chunk.publication.group
        ⟨chunk.publication, chunk.endTick, chunk.manifest, none⟩
      bytes } := by
    unfold GroupAssembler.stage at hstage
    cases hstage
    rfl
  subst ha₁
  refine
    { bytes := ?_, staging := h.within.2, group := ?_, incomplete := ?_, known := ?_, age := hs.age
      young := ?_, assembly := ?_, fenced := ?_ }
  · rw [total_insert, hbytes]
    exact h.bytes_eq hs
  · intro g found hg
    rw [lookup_insert] at hg
    split_ifs at hg
    · cases hg
      exact hbytes ▸ h.within.1
    · exact hs.group g found hg
  · rw [ExtTreeMap.size_insert, contains_eq_isSome]
    split_ifs with hfound
    · exact hs.incomplete
    · have hnone : a.assemblies[chunk.publication.group]? = none := by simpa using hfound
      have hex : existing = none := by
        rcases h.opens.existing with ⟨he, -⟩ | ⟨he, -⟩
        · rw [he, hnone]
        · exact he
      exact h.room hex hnone
  · rw [ExtTreeMap.size_insert, contains_eq_isSome]
    split_ifs with hfound
    · exact hs.known
    · rcases h.opens.fence with ⟨-, hroom⟩ | ⟨fence, hf, -⟩
      · exact hroom
      · simp [hf] at hfound
  · intro g found hg
    rw [lookup_insert] at hg
    split_ifs at hg
    · cases hg
      dsimp only at hstarted ⊢
      cases hfound : a.assemblies[chunk.publication.group]? with
      | none =>
        rw [hstarted.2 hfound, hnow, Nat.sub_self]
        exact ⟨le_rfl, hs.age⟩
      | some old =>
        rw [hstarted.1 old hfound]
        exact hs.young _ old hfound
    · exact hs.young g found hg
  · intro g found hg
    rw [lookup_insert] at hg
    split_ifs at hg
    · cases hg
      exact hsound
    · exact hs.assembly g found hg
  · intro g found hg
    rw [lookup_insert] at hg ⊢
    split_ifs at hg ⊢
    · cases hg
      exact ⟨_, rfl, rfl, htick.symm, hmanifest.symm⟩
    · exact hs.fenced g found hg

theorem Sound.drop (hs : a.Sound)
    (hg : a.assemblies[g]? = some assembly) : (a.drop g assembly).Sound := by
  have hlookup : ∀ {g' : ℕ} {found : Assembly P}, (a.assemblies.erase g)[g']? = some found →
      a.assemblies[g']? = some found := by
    intro g' found hf
    rw [lookup_erase] at hf
    split_ifs at hf
    exact hf
  have htotal := hs.bytes
  rw [total_erase _ hg] at htotal
  refine
    { bytes := ?_
      staging := (Nat.sub_le _ _).trans hs.staging
      group := fun g' found hf => hs.group g' found (hlookup hf)
      incomplete := ?_
      known := hs.known
      age := hs.age
      young := fun g' found hf => hs.young g' found (hlookup hf)
      assembly := fun g' found hf => hs.assembly g' found (hlookup hf)
      fenced := fun g' found hf => hs.fenced g' found (hlookup hf) }
  · change a.bytes - assembly.bytes = total Assembly.bytes (a.assemblies.erase g)
    omega
  · refine le_trans ?_ hs.incomplete
    change (a.assemblies.erase g).size ≤ _
    rw [ExtTreeMap.size_erase]
    split_ifs <;> omega

theorem Sound.publish {fence : GroupFence} (hs : a.Sound) (hg : a.assemblies[g]? = some assembly) :
    { a.drop g assembly with fences := a.fences.insert g fence }.Sound := by
  have hd := hs.drop hg
  obtain ⟨old, hold, -⟩ := hs.fenced g assembly hg
  refine { hd with known := ?_, fenced := fun g' found hf => ?_ }
  · rw [ExtTreeMap.size_insert, contains_eq_isSome, hold]
    exact hs.known
  · obtain ⟨fence', hfence', hrest⟩ := hd.fenced g' found hf
    refine ⟨fence', ?_, hrest⟩
    rw [lookup_insert, if_neg]
    · exact hfence'
    · rintro rfl
      change (a.assemblies.erase g)[g]? = some found at hf
      rw [lookup_erase, if_pos rfl] at hf
      cases hf

variable [DecidableEq P] [Payload P] [StateLayout P] {client : ClientScopes P}

theorem Sound.receiveChunk (hs : a.Sound) (hnow : a.nowMs = nowMs) :
    (a.receiveChunk chunk nowMs client validate).1.Sound := by
  refine receiveChunk_keeps hs fun h staged hstaged => ?_
  have hfound : staged.1.assemblies[chunk.publication.group]? = some staged.2 := by
    simp [← hstaged, GroupAssembler.stage]
  have hstage : staged.1.Sound := hstaged ▸ hs.stage hnow h
  exact ⟨hstage, hstage.drop hfound, fun _ => hstage.publish hfound⟩

/-- **Every call keeps the invariant.** -/
theorem Sound.receive (hs : a.Sound) : (a.receive chunk nowMs client validate).1.Sound := by
  unfold GroupAssembler.receive
  split
  · exact hs
  · rename_i a₁ count hexpire
    have hnow : a₁.nowMs = nowMs := by
      obtain ⟨-, rfl⟩ := expire_ok hexpire
      rfl
    exact (hs.expire hexpire).receiveChunk hnow

omit [DecidableEq P] [Payload P] [StateLayout P] in
theorem sound_new {connection : ℕ} {limits : GroupLimits}
    (h : GroupAssembler.new connection limits = .ok a) : a.Sound := by
  unfold GroupAssembler.new at h
  split_ifs at h with hlimits
  cases h
  push Not at hlimits
  exact
    { bytes := (total_empty _).symm
      staging := Nat.zero_le _
      group := by simp
      incomplete := by simp
      known := by simp
      age := by
        change 0 < limits.maxAgeMs
        omega
      young := by simp
      assembly := by simp
      fenced := by simp }

end sound

end GroupAssembler
end Net
