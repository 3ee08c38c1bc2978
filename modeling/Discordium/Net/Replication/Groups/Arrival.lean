import Discordium.Net.Replication.Groups.Delivery

/-!
# Net — Replication — Groups — Arrival

One publication cut into chunks, and the ways its chunks can arrive.  While some chunk is missing,
the assembly of the group is determined by the set of indices that have arrived (`Collecting`),
whatever their order and however often they came; the last missing chunk applies all members in the
order of the chunks.
-/

namespace Net
open Lib
open Std (ExtTreeMap)

variable {P : Type}

/-- A publication whose members are cut into chunks that partition its manifest. -/
structure Publication (P : Type) where
  key : GroupPublication
  endTick : ℕ
  manifest : List ScopeIdentity
  parts : List (List (FullState P))
  partition : (parts.flatten.map fun state => state.scope).Perm manifest

namespace Publication

/-- A chunk of the publication; the capacities of its vectors are free. -/
structure Chunk (pub : Publication P) (chunk : GroupChunk P) : Prop where
  publication : chunk.publication = pub.key
  endTick : chunk.endTick = pub.endTick
  manifest : chunk.manifest = pub.manifest
  count : chunk.count = pub.parts.length
  members : pub.parts[chunk.index]? = some chunk.members

instance [DecidableEq P] (pub : Publication P) (chunk : GroupChunk P) :
    Decidable (pub.Chunk chunk) :=
  decidable_of_iff (chunk.publication = pub.key ∧ chunk.endTick = pub.endTick ∧
      chunk.manifest = pub.manifest ∧ chunk.count = pub.parts.length ∧
      pub.parts[chunk.index]? = some chunk.members)
    ⟨fun ⟨h₁, h₂, h₃, h₄, h₅⟩ => ⟨h₁, h₂, h₃, h₄, h₅⟩,
      fun ⟨h₁, h₂, h₃, h₄, h₅⟩ => ⟨h₁, h₂, h₃, h₄, h₅⟩⟩

/-- Some chunk is not among the indices. -/
def Missing (pub : Publication P) (seen : Finset ℕ) : Prop :=
  ∃ i < pub.parts.length, i ∉ seen

/-! ### Slots -/

/-- The slots of an assembly that has the chunks of some indices. -/
def slots (pub : Publication P) (seen : Finset ℕ) : List (Option (List (FullState P))) :=
  pub.parts.mapIdx fun i part => if i ∈ seen then some part else none

@[simp] theorem length_slots (pub : Publication P) (seen : Finset ℕ) :
    (pub.slots seen).length = pub.parts.length := by simp [slots]

theorem slots_get (pub : Publication P) (seen : Finset ℕ) (i : ℕ) :
    (pub.slots seen)[i]? = pub.parts[i]?.map fun part => if i ∈ seen then some part else none := by
  simp [slots]

theorem slots_empty (pub : Publication P) :
    pub.slots ∅ = List.replicate pub.parts.length none := by
  refine List.ext_getElem? fun i => ?_
  rw [slots_get, List.getElem?_replicate]
  by_cases hi : i < pub.parts.length
  · simp [hi]
  · simp [hi]

variable {part : List (FullState P)}

theorem slots_set (pub : Publication P) (seen : Finset ℕ) {i : ℕ} (h : pub.parts[i]? = some part) :
    (pub.slots seen).set i (some part) = pub.slots (insert i seen) := by
  have hi : i < pub.parts.length := (List.getElem?_eq_some_iff.mp h).1
  refine List.ext_getElem? fun j => ?_
  rw [List.getElem?_set, slots_get, slots_get, length_slots, if_pos hi]
  by_cases hij : i = j
  · subst hij
    simp [h]
  · have hmem : j ∈ insert i seen ↔ j ∈ seen := by simp [Ne.symm hij]
    rw [if_neg hij]
    simp only [hmem]

theorem slots_any (pub : Publication P) (seen : Finset ℕ) :
    (pub.slots seen).any Option.isNone = true ↔ pub.Missing seen := by
  rw [List.any_eq_true]
  constructor
  · rintro ⟨slot, hmem, hnone⟩
    obtain ⟨i, hi⟩ := List.mem_iff_getElem?.mp hmem
    rw [slots_get, Option.map_eq_some_iff] at hi
    obtain ⟨part, hpart, rfl⟩ := hi
    refine ⟨i, (List.getElem?_eq_some_iff.mp hpart).1, fun hseen => ?_⟩
    simp [hseen] at hnone
  · rintro ⟨i, hi, hseen⟩
    refine ⟨none, List.mem_iff_getElem?.mpr ⟨i, ?_⟩, rfl⟩
    rw [slots_get, List.getElem?_eq_getElem hi]
    simp [hseen]

theorem slots_full (pub : Publication P) {seen : Finset ℕ} (h : ¬pub.Missing seen) :
    ((pub.slots seen).filterMap id).flatten = pub.parts.flatten := by
  have hall : pub.slots seen = pub.parts.map some := by
    refine List.ext_getElem? fun i => ?_
    rw [slots_get, List.getElem?_map]
    refine Option.map_congr fun part hpart => if_pos ?_
    by_contra hseen
    exact h ⟨i, (List.getElem?_eq_some_iff.mp hpart).1, hseen⟩
  rw [hall, List.filterMap_map]
  simp

/-- What one chunk brings is in no other chunk. -/
theorem slots_apart (pub : Publication P) (hnodup : pub.manifest.Nodup) {seen : Finset ℕ} {i : ℕ}
    (h : pub.parts[i]? = some part) (hseen : i ∉ seen) {s : FullState P}
    (hs : s ∈ ((pub.slots seen).filterMap id).flatten) :
    s.scope ∉ part.map fun state => state.scope := by
  obtain ⟨other, hother, hs⟩ := List.mem_flatten.mp hs
  rw [List.mem_filterMap] at hother
  obtain ⟨slot, hslot, rfl⟩ := hother
  obtain ⟨j, hj⟩ := List.mem_iff_getElem?.mp hslot
  rw [slots_get, Option.map_eq_some_iff] at hj
  obtain ⟨part', hpart', hj⟩ := hj
  split_ifs at hj with hjseen
  obtain rfl : part' = other := by simpa using hj
  have hparts := pub.partition.nodup_iff.mpr hnodup
  rw [List.map_flatten, List.nodup_flatten, List.pairwise_map, List.pairwise_iff_getElem] at hparts
  obtain ⟨hi, rfl⟩ := List.getElem?_eq_some_iff.mp h
  obtain ⟨hj', rfl⟩ := List.getElem?_eq_some_iff.mp hpart'
  have hscope : s.scope ∈ pub.parts[j].map fun state => state.scope := List.mem_map_of_mem hs
  intro hin
  rcases Nat.lt_trichotomy i j with hlt | rfl | hlt
  · exact hparts.2 i j hi hj' hlt hin hscope
  · exact hseen hjseen
  · exact hparts.2 j i hj' hi hlt hscope hin

/-! ### Collecting -/

open GroupAssembler

/-- The group is ready for the first chunk: it has no fence, or one the publication supersedes. -/
def Awaits (pub : Publication P) (a : GroupAssembler P) : Prop :=
  ∀ fence : GroupFence, a.fences[pub.key.group]? = some fence →
    pub.key ≠ fence.publication ∧ ¬precedes pub.key fence.publication ∧
      (∀ chunk : GroupChunk P, pub.Chunk chunk → ¬conflicts chunk fence) ∧
      (fence.receipts = none → (a.assemblies[pub.key.group]?).isSome)

/-- The assembly has the chunks of some indices. -/
structure Holds (pub : Publication P) (seen : Finset ℕ) (assembly : Assembly P) : Prop where
  endTick : assembly.endTick = pub.endTick
  manifest : assembly.manifest = pub.manifest
  chunks : assembly.chunks = pub.slots seen

/-- The chunks of some indices have arrived, and the publication is not complete. -/
structure Collecting (pub : Publication P) (seen : Finset ℕ) (a : GroupAssembler P) : Prop where
  awaits : seen = ∅ → pub.Awaits a
  held : seen ≠ ∅ → a.fences[pub.key.group]? = some ⟨pub.key, pub.endTick, pub.manifest, none⟩ ∧
    ∃ assembly : Assembly P, a.assemblies[pub.key.group]? = some assembly ∧ pub.Holds seen assembly

/-- Only the fence and the assembly of the group matter. -/
theorem Collecting.congr {pub : Publication P} {seen : Finset ℕ} {a a' : GroupAssembler P}
    (h : pub.Collecting seen a) (hf : a'.fences[pub.key.group]? = a.fences[pub.key.group]?)
    (ha : a'.assemblies[pub.key.group]? = a.assemblies[pub.key.group]?) :
    pub.Collecting seen a' where
  awaits he := by
    unfold Awaits
    rw [hf, ha]
    exact h.awaits he
  held hne := by
    rw [hf, ha]
    exact h.held hne

section own
variable {pub : Publication P} {seen : Finset ℕ} {a : GroupAssembler P} {chunk : GroupChunk P}

/-- A chunk of the publication goes to the assembly that has the earlier ones. -/
theorem Collecting.checkGroup [DecidableEq P] (hs : a.Sound) (h : pub.Collecting seen a)
    (hchunk : pub.Chunk chunk) (nowMs : ℕ) (client : ClientScopes P) :
    a.checkGroup chunk nowMs client = .error .resetRequired ∨
    ∃ replace startedMs, a.checkGroup chunk nowMs client = .ok (.fresh replace startedMs) ∧
      ((seen = ∅ ∧ (if replace then none else a.assemblies[chunk.publication.group]?) = none) ∨
        ∃ assembly, (if replace then none else a.assemblies[chunk.publication.group]?) =
          some assembly ∧ pub.Holds seen assembly) := by
  unfold GroupAssembler.checkGroup
  dsimp only
  rw [hchunk.publication]
  by_cases hseen : seen = ∅
  · cases hf : a.fences[pub.key.group]? with
    | none =>
      dsimp only
      split_ifs with hroom
      · exact .inl rfl
      · refine .inr ⟨false, nowMs, rfl, .inl ⟨hseen, ?_⟩⟩
        -- an assembly has a fence
        cases ha : a.assemblies[pub.key.group]? with
        | none => rfl
        | some assembly =>
          obtain ⟨fence, hfence, -⟩ := hs.fenced _ assembly ha
          rw [hf] at hfence
          cases hfence
    | some fence =>
      obtain ⟨hne, hprecedes, hconflicts, hthere⟩ := h.awaits hseen fence hf
      have hlive : ¬(fence.receipts = none ∧ (!a.assemblies.contains pub.key.group) = true) := by
        rintro ⟨hnone, hcontains⟩
        have := hthere hnone
        rw [← contains_eq_isSome] at this
        simp [this] at hcontains
      dsimp only
      rw [if_neg (hconflicts chunk hchunk), if_neg hprecedes, if_neg hlive, if_neg hne]
      exact .inr ⟨true, _, rfl, .inl ⟨hseen, rfl⟩⟩
  · obtain ⟨hf, assembly, ha, hholds⟩ := h.held hseen
    have hcontains : a.assemblies.contains pub.key.group = true := by
      rw [contains_eq_isSome, ha]
      rfl
    have hconflicts : ¬conflicts chunk ⟨pub.key, pub.endTick, pub.manifest, none⟩ := by
      unfold conflicts
      rw [hchunk.publication, hchunk.endTick, hchunk.manifest]
      simp
    have hprecedes : ¬precedes pub.key pub.key := by
      unfold precedes
      omega
    rw [hf]
    dsimp only
    rw [if_neg hconflicts, if_neg hprecedes, if_neg (by simp [hcontains]), if_pos rfl,
      if_neg (by simp [hcontains])]
    exact .inr ⟨false, nowMs, rfl, .inr ⟨assembly, ha, hholds⟩⟩

/-- The assembly of the publication has the chunk exactly when its index has arrived. -/
theorem Holds.checkAssembly [DecidableEq P] {assembly : Assembly P} (h : pub.Holds seen assembly)
    (hchunk : pub.Chunk chunk) (hnodup : pub.manifest.Nodup) :
    a.checkAssembly chunk (some assembly) = .ok (decide (chunk.index ∈ seen)) := by
  have hshape : ¬(assembly.endTick ≠ chunk.endTick ∨ assembly.chunks.length ≠ chunk.count ∨
      assembly.manifest ≠ chunk.manifest) := by
    rw [h.endTick, h.chunks, h.manifest, hchunk.endTick, hchunk.count, hchunk.manifest]
    simp
  unfold GroupAssembler.checkAssembly
  dsimp only
  rw [if_neg hshape, h.chunks, slots_get, hchunk.members]
  by_cases hseen : chunk.index ∈ seen
  · simp [hseen]
  · have hapart : ¬assembly.members.any
        (fun s => decide (s.scope ∈ chunk.members.map fun state => state.scope)) = true := by
      rw [List.any_eq_true]
      rintro ⟨s, hs, hin⟩
      unfold Assembly.members at hs
      rw [h.chunks] at hs
      exact slots_apart pub hnodup hchunk.members hseen hs (of_decide_eq_true hin)
    simp only [hseen, if_false, Option.map_some, Option.join_some, decide_false]
    rw [if_neg hapart]

/-- Staged where the earlier chunks are. -/
theorem holds_stage {existing : Option (Assembly P)} {startedMs groupBytes bytes : ℕ}
    (h : (seen = ∅ ∧ existing = none) ∨ ∃ assembly, existing = some assembly ∧
      pub.Holds seen assembly)
    (hchunk : pub.Chunk chunk) :
    pub.Holds (insert chunk.index seen) (a.stage chunk existing startedMs groupBytes bytes).2 := by
  rcases h with ⟨rfl, rfl⟩ | ⟨assembly, rfl, hholds⟩
  · refine ⟨hchunk.endTick, hchunk.manifest, ?_⟩
    change (List.replicate chunk.count none).set chunk.index (some chunk.members) = _
    rw [hchunk.count, ← slots_empty, slots_set pub ∅ hchunk.members]
  · refine ⟨hholds.endTick, hholds.manifest, ?_⟩
    change assembly.chunks.set chunk.index (some chunk.members) = _
    rw [hholds.chunks, slots_set pub seen hchunk.members]

variable [DecidableEq P] [Payload P] [StateLayout P] {client : ClientScopes P} {validate : P → Bool}
  {nowMs memberBytes : ℕ}

/-- A chunk of the publication for which there is room is staged, or is there already. -/
theorem Collecting.staged (hs : a.Sound) (h : pub.Collecting seen a) (hchunk : pub.Chunk chunk)
    (hscreen : a.screen chunk client validate = .ok memberBytes)
    (hcapacity : (a.receiveChunk chunk nowMs client validate).2.2 ≠ .error .capacity)
    (hreset : (a.receiveChunk chunk nowMs client validate).2.2 ≠ .error .resetRequired) :
    (chunk.index ∈ seen ∧ a.receiveChunk chunk nowMs client validate = (a, client, .ok .staged)) ∨
    (chunk.index ∉ seen ∧ ∃ (a₁ : GroupAssembler P) (assembly : Assembly P),
      pub.Holds (insert chunk.index seen) assembly ∧ pub.Collecting (insert chunk.index seen) a₁ ∧
      a.receiveChunk chunk nowMs client validate = a₁.complete assembly chunk client validate) := by
  have hnodup : pub.manifest.Nodup := hchunk.manifest ▸ (screen_ok hscreen).manifest.indices.of_map
  unfold GroupAssembler.receiveChunk at hcapacity hreset ⊢
  rw [hscreen] at hcapacity hreset ⊢
  dsimp only at hcapacity hreset ⊢
  rcases h.checkGroup hs hchunk nowMs client with hgroup | ⟨replace, startedMs, hgroup, hexisting⟩
  · rw [hgroup] at hreset
    exact absurd rfl hreset
  rw [hgroup] at hcapacity ⊢
  dsimp only at hcapacity ⊢
  generalize (if replace then none else a.assemblies[chunk.publication.group]?) = existing
    at hexisting hcapacity ⊢
  generalize (if replace then a.assemblies[chunk.publication.group]? else none) = replaced
    at hcapacity ⊢
  have hcheck : a.checkAssembly chunk existing = .error .capacity ∨
      a.checkAssembly chunk existing = .ok (decide (chunk.index ∈ seen)) := by
    rcases hexisting with ⟨rfl, rfl⟩ | ⟨assembly, rfl, hholds⟩
    · unfold GroupAssembler.checkAssembly
      dsimp only
      split_ifs
      · exact .inl rfl
      · exact .inr (by simp)
    · exact .inr (hholds.checkAssembly hchunk hnodup)
  rcases hcheck with hcheck | hcheck
  · rw [hcheck] at hcapacity
    exact absurd rfl hcapacity
  rw [hcheck] at hcapacity ⊢
  by_cases hseen : chunk.index ∈ seen
  · rw [decide_eq_true hseen]
    exact .inl ⟨hseen, rfl⟩
  rw [decide_eq_false hseen] at hcapacity ⊢
  dsimp only at hcapacity ⊢
  cases hcharge : a.charge chunk memberBytes existing replaced with
  | none =>
    rw [hcharge] at hcapacity
    exact absurd rfl hcapacity
  | some charged =>
    obtain ⟨groupBytes, bytes⟩ := charged
    have hholds : pub.Holds (insert chunk.index seen)
        (a.stage chunk existing startedMs groupBytes bytes).2 := holds_stage hexisting hchunk
    refine .inr ⟨hseen, (a.stage chunk existing startedMs groupBytes bytes).1,
      (a.stage chunk existing startedMs groupBytes bytes).2, hholds,
      ⟨fun he => ?_, fun _ => ?_⟩, rfl⟩
    · exact absurd he (Finset.insert_ne_empty _ _)
    · rw [stage_fences, stage_assemblies, hchunk.publication, if_pos rfl, if_pos rfl,
        hchunk.endTick, hchunk.manifest]
      exact ⟨rfl, _, rfl, hholds⟩

/-- The client and the answer once every chunk is there. -/
def outcome (pub : Publication P) (client : ClientScopes P) (validate : P → Bool) :
    ClientScopes P × Except ReplicationError GroupProgress :=
  match applyAll validate client pub.parts.flatten with
  | .ok (client, receipts) => (client, .ok (.published receipts))
  | .error error => (client, .error error)

/-- **One arrival.**  While a chunk is missing the client stays as it is; the last missing one
applies all members. -/
theorem Collecting.arrive (hs : a.Sound) (h : pub.Collecting seen a) (hchunk : pub.Chunk chunk)
    (hmissing : pub.Missing seen) (hscreen : a.screen chunk client validate = .ok memberBytes)
    (hcapacity : (a.receiveChunk chunk nowMs client validate).2.2 ≠ .error .capacity)
    (hreset : (a.receiveChunk chunk nowMs client validate).2.2 ≠ .error .resetRequired) :
    (pub.Missing (insert chunk.index seen) →
      pub.Collecting (insert chunk.index seen) (a.receiveChunk chunk nowMs client validate).1 ∧
        (a.receiveChunk chunk nowMs client validate).2 = (client, .ok .staged)) ∧
    (¬pub.Missing (insert chunk.index seen) →
      (a.receiveChunk chunk nowMs client validate).2 = pub.outcome client validate) := by
  rcases h.staged hs hchunk hscreen hcapacity hreset
    with ⟨hseen, hr⟩ | ⟨-, a₁, assembly, hholds, hc, hr⟩
  · rw [hr, Finset.insert_eq_of_mem hseen]
    exact ⟨fun _ => ⟨h, rfl⟩, fun hfull => absurd hmissing hfull⟩
  · rw [hr]
    unfold complete
    dsimp only
    rw [hholds.chunks]
    refine ⟨fun hmore => ?_, fun hfull => ?_⟩
    · rw [if_pos ((slots_any pub _).mpr hmore)]
      exact ⟨hc, rfl⟩
    · have hmembers : assembly.members = pub.parts.flatten := by
        unfold Assembly.members
        rw [hholds.chunks, slots_full pub hfull]
      have hlength : ¬assembly.members.length ≠ assembly.manifest.length := by
        rw [hmembers, hholds.manifest, ← pub.partition.length_eq, List.length_map, not_not]
      rw [if_neg (fun hany => hfull ((slots_any pub _).mp hany)), if_neg hlength, hmembers]
      unfold outcome
      cases applyAll validate client pub.parts.flatten <;> rfl

end own

/-! ### Everything else -/

/-- The transfer of the group, if there is one, is within its deadline. -/
def InTime (pub : Publication P) (a : GroupAssembler P) (nowMs : ℕ) : Prop :=
  ∀ assembly : Assembly P, a.assemblies[pub.key.group]? = some assembly →
    nowMs - assembly.startedMs < a.limits.maxAgeMs

theorem Collecting.expired {pub : Publication P} {seen : Finset ℕ} {a : GroupAssembler P}
    {nowMs : ℕ} (h : pub.Collecting seen a) (htime : pub.InTime a nowMs) :
    pub.Collecting seen (a.expired nowMs) := by
  refine h.congr (by rw [expired_fences]) ?_
  rcases lt_or_ge nowMs a.nowMs with hlt | hle
  · rw [expired_of_lt hlt]
  · obtain ⟨count, hexpire⟩ := expire_expired hle
    refine Option.ext fun assembly => ?_
    rw [expire_lookup hexpire]
    exact ⟨And.left, fun ha => ⟨ha, htime assembly ha⟩⟩

/-- A chunk of another group, or of a publication its group has left behind. -/
def Apart (pub : Publication P) (a : GroupAssembler P) (chunk : GroupChunk P) : Prop :=
  chunk.publication.group ≠ pub.key.group ∨
    ∃ fence : GroupFence, a.fences[chunk.publication.group]? = some fence ∧
      precedes chunk.publication fence.publication

variable [DecidableEq P] [Payload P] [StateLayout P]

theorem Collecting.apart {pub : Publication P} {seen : Finset ℕ} {a : GroupAssembler P}
    {chunk : GroupChunk P} {nowMs : ℕ} {client : ClientScopes P} {validate : P → Bool}
    (h : pub.Collecting seen a) (hapart : pub.Apart a chunk) :
    pub.Collecting seen (a.receiveChunk chunk nowMs client validate).1 := by
  refine receiveChunk_keeps h fun hstaging staged hstaged => ?_
  rcases hapart with hne | ⟨fence, hfence, hprecedes⟩
  · have hcollecting : pub.Collecting seen staged.1 := hstaged ▸
      h.congr ((stage_fences _).trans (if_neg hne)) ((stage_assemblies _).trans (if_neg hne))
    exact ⟨hcollecting, hcollecting.congr rfl ((lookup_erase ..).trans (if_neg hne)), fun _ =>
      hcollecting.congr ((lookup_insert ..).trans (if_neg hne))
        ((lookup_erase ..).trans (if_neg hne))⟩
  · rcases hstaging.opens.fence with ⟨hnone, -⟩ | ⟨old, hold, -, hafter, -⟩
    · rw [hnone] at hfence
      cases hfence
    · rw [hold, Option.some.injEq] at hfence
      exact absurd (hfence ▸ hprecedes) hafter

omit [DecidableEq P] in
theorem screen_expired (a : GroupAssembler P) (nowMs : ℕ) (chunk : GroupChunk P)
    (client : ClientScopes P) (validate : P → Bool) :
    (a.expired nowMs).screen chunk client validate = a.screen chunk client validate := by
  obtain ⟨_, _, _, heq⟩ := a.expired_eq nowMs
  rw [heq]
  rfl

/-! ### Runs -/

/-- An action on the way of a publication: in time; a valid chunk of it for which there is room, or
something that concerns neither its group nor the client. -/
def Fair (pub : Publication P) (s : Station P) : Station.Action P → Prop
  | .receive chunk nowMs validate =>
    pub.InTime s.assembler nowMs ∧
      ((pub.Chunk chunk ∧ s.assembler.nowMs ≤ nowMs ∧
          (∃ memberBytes, s.assembler.screen chunk s.client validate = .ok memberBytes) ∧
          (s.assembler.receive chunk nowMs s.client validate).2.2 ≠ .error .capacity ∧
          (s.assembler.receive chunk nowMs s.client validate).2.2 ≠ .error .resetRequired) ∨
        (¬pub.Chunk chunk ∧ pub.Apart s.assembler chunk ∧
          (s.assembler.receive chunk nowMs s.client validate).2.1 = s.client))
  | .expire nowMs => pub.InTime s.assembler nowMs
  | .deliver m validate => (s.client.apply m validate).1 = s.client
  | .reset connection => (s.client.reset connection).1 = s.client

/-- The index of a chunk of the publication. -/
def index (pub : Publication P) : Station.Action P → Option ℕ
  | .receive chunk _ _ => if pub.Chunk chunk then some chunk.index else none
  | _ => none

/-- The indices that arrive in a run. -/
def arrived (pub : Publication P) (actions : List (Station.Action P)) : Finset ℕ :=
  (actions.filterMap pub.index).toFinset

variable {s : Station P}

/-- A chunk of the publication on its way. -/
theorem Collecting.receive {pub : Publication P} {seen : Finset ℕ}
    {chunk : GroupChunk P} {nowMs : ℕ} {validate : P → Bool} (hs : s.assembler.Sound)
    (h : pub.Collecting seen s.assembler) (hchunk : pub.Chunk chunk) (hmissing : pub.Missing seen)
    (hfair : pub.Fair s (.receive chunk nowMs validate)) :
    (pub.Missing (insert chunk.index seen) →
      pub.Collecting (insert chunk.index seen) (s.assembler.receive chunk nowMs s.client
        validate).1 ∧ (s.assembler.receive chunk nowMs s.client validate).2 =
          (s.client, .ok .staged)) ∧
    (¬pub.Missing (insert chunk.index seen) →
      (s.assembler.receive chunk nowMs s.client validate).2 = pub.outcome s.client validate) := by
  obtain ⟨htime, ⟨-, hnow, ⟨memberBytes, hscreen⟩, hcapacity, hreset⟩ | ⟨hother, -⟩⟩ := hfair
  · rcases s.assembler.receive_cases chunk nowMs s.client validate with ⟨hlt, -⟩ | ⟨-, hr⟩
    · exact absurd hnow hlt.not_ge
    · rw [hr] at hcapacity hreset ⊢
      exact (h.expired htime).arrive (hs.expired nowMs) hchunk hmissing
        ((screen_expired ..).trans hscreen) hcapacity hreset
  · exact absurd hchunk hother

theorem Collecting.step {pub : Publication P} {seen : Finset ℕ}
    {action : Station.Action P} (hs : s.assembler.Sound) (h : pub.Collecting seen s.assembler)
    (hfair : pub.Fair s action) (hmissing : pub.Missing ((pub.index action).toFinset ∪ seen)) :
    pub.Collecting ((pub.index action).toFinset ∪ seen) (s.step action).assembler ∧
      (s.step action).client = s.client := by
  cases action with
  | receive chunk nowMs validate =>
    by_cases hchunk : pub.Chunk chunk
    · have hindex : (pub.index (.receive chunk nowMs validate)).toFinset ∪ seen =
          insert chunk.index seen := by simp [index, hchunk]
      rw [hindex] at hmissing ⊢
      have hbefore : pub.Missing seen := by
        obtain ⟨i, hi, hmiss⟩ := hmissing
        exact ⟨i, hi, fun hin => hmiss (Finset.mem_insert_of_mem hin)⟩
      obtain ⟨hc, hr⟩ := (h.receive hs hchunk hbefore hfair).1 hmissing
      exact ⟨hc, congrArg Prod.fst hr⟩
    · have hindex : (pub.index (.receive chunk nowMs validate)).toFinset ∪ seen = seen := by
        simp [index, hchunk]
      rw [hindex]
      obtain ⟨htime, ⟨hown, -⟩ | ⟨-, hapart, hclient⟩⟩ := hfair
      · exact absurd hown hchunk
      refine ⟨?_, hclient⟩
      change pub.Collecting seen (s.assembler.receive chunk nowMs s.client validate).1
      rcases s.assembler.receive_cases chunk nowMs s.client validate with ⟨-, hr⟩ | ⟨-, hr⟩
      · rw [hr]
        exact h
      · rw [hr]
        refine (h.expired htime).apart ?_
        unfold Apart
        rw [expired_fences]
        exact hapart
  | expire nowMs => exact ⟨by simpa [index, Station.step] using h.expired hfair, rfl⟩
  | deliver m validate => exact ⟨by simpa [index, Station.step] using h, hfair⟩
  | reset connection => exact ⟨by simpa [index, Station.step] using h, hfair⟩

/-- **While a chunk is missing**, what is staged depends on which chunks arrived, and on nothing
else. -/
theorem Collecting.run {pub : Publication P} {seen : Finset ℕ}
    {actions : List (Station.Action P)} (hs : s.assembler.Sound)
    (h : pub.Collecting seen s.assembler) (hfair : Meets Station.step pub.Fair s actions)
    (hmissing : pub.Missing (pub.arrived actions ∪ seen)) :
    pub.Collecting (pub.arrived actions ∪ seen) (run Station.step s actions).assembler ∧
      (Lib.run Station.step s actions).client = s.client := by
  induction actions generalizing seen s with
  | nil => exact ⟨by simpa [arrived] using h, rfl⟩
  | cons action actions ih =>
    have harrived : pub.arrived (action :: actions) ∪ seen =
        pub.arrived actions ∪ ((pub.index action).toFinset ∪ seen) := by
      ext i
      cases hi : pub.index action <;> simp [arrived, hi]
    rw [harrived] at hmissing ⊢
    have hnow : pub.Missing ((pub.index action).toFinset ∪ seen) := by
      obtain ⟨i, hi, hmiss⟩ := hmissing
      exact ⟨i, hi, fun hin => hmiss (Finset.mem_union_right _ hin)⟩
    obtain ⟨hc, hclient⟩ := h.step hs hfair.1 hnow
    obtain ⟨hc', hclient'⟩ := ih (Station.sound_step hs action) hc hfair.2 hmissing
    exact ⟨hc', hclient'.trans hclient⟩

end Publication

/-! ### Atomic publication -/

section publication
variable [DecidableEq P] [Payload P] [StateLayout P]

/-- What one call does to the client. -/
theorem GroupAssembler.receive_client {a : GroupAssembler P} (hs : a.Sound) (chunk : GroupChunk P)
    (nowMs : ℕ) (client : ClientScopes P) (validate : P → Bool) :
    ((a.receive chunk nowMs client validate).2.1 = client ∧
      ∀ receipts, (a.receive chunk nowMs client validate).2.2 = .ok (.published receipts) →
        ∀ r ∈ receipts, ∃ state, client.state r.scope.entity = some state ∧ state.receipt = r) ∨
    ∃ members receipts, (a.receive chunk nowMs client validate).2.2 = .ok (.published receipts) ∧
      (members.map fun state : FullState P => state.scope).Perm chunk.manifest ∧
      applyAll validate client members = .ok ((a.receive chunk nowMs client validate).2.1,
        receipts) := by
  rcases a.receive_cases chunk nowMs client validate with ⟨-, hr⟩ | ⟨-, hr⟩
  · rw [hr]
    exact .inl ⟨rfl, by simp⟩
  · rw [hr]
    exact received_client (hs.expired nowMs) (receiveChunk_received ..)

/-- **Publication is atomic.**  For a new assembler and any client, after any actions:

* a chunk leaves the client as it is, or publishes each member of its manifest once; a repeated
  answer changes nothing;
* the chunks of a publication that the group awaits, in any order, however often and among whatever
  else, are staged until the last missing one applies all members, and the outcome depends on the
  publication and the client only;
* the bytes are the sum over the assemblies, and bytes and counts are within their limits;
* the fence of a group never goes back;
* a transfer keeps its deadline until it is published, also when another one takes its place. -/
theorem atomic_publication {connection : ℕ} {limits : GroupLimits} {start : GroupAssembler P}
    (hnew : GroupAssembler.new connection limits = .ok start) (client : ClientScopes P)
    (actions : List (Station.Action P)) :
    let s := run Station.step ⟨start, client⟩ actions
    (∀ chunk nowMs validate,
      let result := s.assembler.receive chunk nowMs s.client validate
      ((∀ receipts, result.2.2 ≠ .ok (.published receipts)) → result.2.1 = s.client) ∧
      ∀ receipts, result.2.2 = .ok (.published receipts) →
        (result.2.1 = s.client ∧
          ∀ r ∈ receipts, ∃ state, s.client.state r.scope.entity = some state ∧ state.receipt = r) ∨
        ∃ members, (members.map fun state : FullState P => state.scope).Perm chunk.manifest ∧
          GroupAssembler.applyAll validate s.client members = .ok (result.2.1, receipts)) ∧
    (∀ pub : Publication P, pub.Awaits s.assembler → ∀ more chunk nowMs validate,
      let t := run Station.step s more
      Meets Station.step pub.Fair s more → pub.Chunk chunk →
      pub.Fair t (.receive chunk nowMs validate) → pub.Missing (pub.arrived more) →
      let result := t.assembler.receive chunk nowMs t.client validate
      (pub.Missing (insert chunk.index (pub.arrived more)) → result.2 = (s.client, .ok .staged)) ∧
      (¬pub.Missing (insert chunk.index (pub.arrived more)) →
        result.2 = pub.outcome s.client validate)) ∧
    (s.assembler.bytes = total Assembly.bytes s.assembler.assemblies ∧
      s.assembler.bytes ≤ limits.stagingBytes ∧
      (∀ (g : ℕ) (assembly : Assembly P), s.assembler.assemblies[g]? = some assembly →
        assembly.bytes ≤ limits.groupBytes) ∧
      s.assembler.assemblies.size ≤ limits.incomplete ∧
      s.assembler.fences.size ≤ limits.knownGroups) ∧
    (∀ (g : ℕ) (fence : GroupFence) more, s.assembler.fences[g]? = some fence →
      ∃ fence' : GroupFence, (run Station.step s more).assembler.fences[g]? = some fence' ∧
        GroupAssembler.Advances fence.publication fence'.publication) ∧
    (∀ (g : ℕ) (assembly assembly' : Assembly P) more, s.assembler.assemblies[g]? = some assembly →
      (∀ n, ∀ fence : GroupFence, (run Station.step s (more.take n)).assembler.fences[g]? =
        some fence → fence.receipts = none) →
      let t := run Station.step s more
      t.assembler.assemblies[g]? = some assembly' →
        assembly'.startedMs = assembly.startedMs ∧
        t.assembler.nowMs < assembly.startedMs + limits.maxAgeMs) := by
  intro s
  have hs : s.assembler.Sound := Station.run_sound (GroupAssembler.sound_new hnew) actions
  have hlimits : s.assembler.limits = limits := by
    refine (Station.run_limits _ actions).trans ?_
    unfold GroupAssembler.new at hnew
    split_ifs at hnew
    cases hnew
    rfl
  refine ⟨fun chunk nowMs validate => ?_, fun pub hawaits more chunk nowMs validate => ?_,
    ⟨hs.bytes, hlimits ▸ hs.staging, hlimits ▸ hs.group, hlimits ▸ hs.incomplete,
      hlimits ▸ hs.known⟩,
    fun g fence more hf => s.fences_advance more hf, fun g assembly assembly' more ha hun => ?_⟩
  · rcases GroupAssembler.receive_client hs chunk nowMs s.client validate with
      ⟨hclient, hretained⟩ | ⟨members, receipts, hanswer, hperm, happly⟩
    · exact ⟨fun _ => hclient, fun receipts h => .inl ⟨hclient, hretained receipts h⟩⟩
    · refine ⟨fun h => absurd hanswer (h receipts), fun receipts' h => .inr ⟨members, hperm, ?_⟩⟩
      cases hanswer.symm.trans h
      exact happly
  · intro t hmeets hchunk hfair hmissing result
    have hstart : pub.Collecting ∅ s.assembler := ⟨fun _ => hawaits, fun h => absurd rfl h⟩
    obtain ⟨hc, hclient⟩ := hstart.run hs hmeets (by rwa [Finset.union_empty])
    rw [Finset.union_empty] at hc
    obtain ⟨hmore, hfull⟩ := hc.receive (Station.run_sound hs more) hchunk hmissing hfair
    exact ⟨fun h => hclient ▸ (hmore h).2, fun h => hclient ▸ hfull h⟩
  · intro t ha'
    obtain ⟨fence, hfence, hreceipts, -⟩ := hs.fenced g assembly ha
    have htransfer : s.assembler.Transfer g assembly.startedMs := by
      refine ⟨⟨fence, hfence, hreceipts⟩, fun found hfound => ?_⟩
      rw [ha, Option.some.injEq] at hfound
      rw [hfound]
    have hstarted := (s.transfer_kept more htransfer hun).started assembly' ha'
    have hyoung := (Station.run_sound hs more).young g assembly' ha'
    refine ⟨hstarted, ?_⟩
    rw [Station.run_limits, hlimits] at hyoung
    change (run Station.step s more).assembler.nowMs < _
    omega

end publication

/-- Boxed bytes on a target of 64 bits. -/
instance boxedLayout : StateLayout (List UInt8) := ⟨88, 40⟩

/-- One publication of two entities, a chunk each. -/
def pairPublication : Publication (List UInt8) where
  key := ⟨1, 1, 1, 1⟩
  endTick := 1
  manifest := [⟨1, ⟨0, 1⟩, 1, 1⟩, ⟨1, ⟨1, 1⟩, 1, 1⟩]
  parts := [[⟨⟨1, ⟨0, 1⟩, 1, 1⟩, 1, 1, 1, 1, [5]⟩], [⟨⟨1, ⟨1, 1⟩, 1, 1⟩, 1, 1, 1, 1, [6]⟩]]
  partition := .refl _

/-- A chunk of it. -/
def pairChunk (i : ℕ) : GroupChunk (List UInt8) :=
  ⟨pairPublication.key, 1, pairPublication.manifest, 2, i, 2, pairPublication.parts.getD i [], 1⟩

def emptyClient : ClientScopes (List UInt8) := ⟨1, ScopeLimits.default, ∅, 0⟩

theorem pair_complete : ¬pairPublication.Missing
    (insert 0 (pairPublication.arrived [.receive (pairChunk 1) 0 fun _ => true])) := by
  rintro ⟨i, hi, hmiss⟩
  have hi : i < 2 := hi
  interval_cases i <;> exact hmiss (by decide)

theorem atomic_publication_pair :
    ∃ start : GroupAssembler (List UInt8), GroupAssembler.new 1 GroupLimits.default = .ok start ∧
      let t := run Station.step ⟨start, emptyClient⟩ [.receive (pairChunk 1) 0 fun _ => true]
      (t.assembler.receive (pairChunk 0) 5 t.client fun _ => true).2 =
        pairPublication.outcome emptyClient fun _ => true := by
  refine ⟨_, rfl,
    ((atomic_publication (show GroupAssembler.new 1 GroupLimits.default = .ok _ from rfl)
    emptyClient []).2.1 pairPublication ?_ [.receive (pairChunk 1) 0 fun _ => true] (pairChunk 0) 5
    (fun _ => true) ?_ ?_ ?_ ?_).2 ?_⟩
  · intro fence h
    exact nomatch (show (none : Option GroupFence) = some fence from h)
  · refine ⟨⟨fun assembly h => ?_, .inl ⟨by decide, le_rfl, ⟨_, rfl⟩, ?_, ?_⟩⟩, trivial⟩
    · exact nomatch (show (none : Option (Assembly (List UInt8))) = some assembly from h)
    · decide +kernel
    · decide +kernel
  · decide
  · refine ⟨fun assembly h => ?_, .inl ⟨by decide, by decide, ⟨_, rfl⟩, ?_, ?_⟩⟩
    · cases (show some _ = some assembly from h)
      decide
    · decide +kernel
    · decide +kernel
  · exact ⟨0, by decide, by decide⟩
  · exact pair_complete

/-- A later state of one of the two entities. -/
def laterState : FullState (List UInt8) := ⟨⟨1, ⟨0, 1⟩, 1, 1⟩, 1, 2, 2, 2, [7]⟩

/-- The last missing chunk does not publish where the client has a later state of a member: it is
refused as a whole. -/
theorem last_chunk_refused :
    ∃ start : GroupAssembler (List UInt8), GroupAssembler.new 1 GroupLimits.default = .ok start ∧
      let s := run Station.step ⟨start, emptyClient⟩ [.deliver (.full laterState) fun _ => true]
      let t := run Station.step s [.receive (pairChunk 1) 0 fun _ => true]
      pairPublication.Awaits s.assembler ∧
      Meets Station.step pairPublication.Fair s [.receive (pairChunk 1) 0 fun _ => true] ∧
      pairPublication.Chunk (pairChunk 0) ∧
      pairPublication.Fair t (.receive (pairChunk 0) 5 fun _ => true) ∧
      ¬pairPublication.Missing
        (insert 0 (pairPublication.arrived [.receive (pairChunk 1) 0 fun _ => true])) ∧
      (t.assembler.receive (pairChunk 0) 5 t.client fun _ => true).2.2 =
        .error (.obsolete .publication) := by
  refine ⟨_, rfl, fun fence h => ?_,
    ⟨⟨fun assembly h => ?_, .inl ⟨by decide, le_rfl, ⟨_, rfl⟩, ?_, ?_⟩⟩, trivial⟩, by decide,
    ⟨fun assembly h => ?_, .inl ⟨by decide, by decide, ⟨_, rfl⟩, ?_, ?_⟩⟩, ?_, ?_⟩
  · exact nomatch (show (none : Option GroupFence) = some fence from h)
  · exact nomatch (show (none : Option (Assembly (List UInt8))) = some assembly from h)
  · decide +kernel
  · decide +kernel
  · cases (show some _ = some assembly from h)
    decide
  · decide +kernel
  · decide +kernel
  · exact pair_complete
  · decide +kernel

end Net
