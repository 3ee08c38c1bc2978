import Discordium.Dreamwake.Server.Baselines
import Discordium.Lib.Fallible
import Discordium.Lib.Machine
import Discordium.Net.Baselines.Agreement

/-!
# Dreamwake — Server — Lockstep

The caches of an owner group move together.  `Members` says that every cache is open, under its
member's context, within its budget and of one generation; every operation keeps it.  Operations on
the group validate before they change anything, and what a preview of a publication decided the
entering of it decides again, so an operation changes all caches or none.
-/

namespace Dreamwake
open Net Net.Baselines Lib
open Std (ExtTreeMap)

variable {P : Type}

/-! ### One member -/

/-- The cache of a member, in the generation of its group. -/
structure Member (generation : ℕ) (entity : EntityId) (context : BaselineContext)
    (cache : ServerBaselines P) : Prop where
  current : cache.cache.generation = generation
  same : cache.cache.context = context
  owned : context.scope.entity = entity
  opened : cache.cache.closed = false
  bytes : cache.cache.bytes ≤ Group.limits.residentBytes
  limits : cache.cache.limits = Group.limits

namespace Member
variable {generation : ℕ} {entity : EntityId} {context : BaselineContext}
  {cache : ServerBaselines P}

/-- A new cache is open and has room for a payload. -/
theorem new_opened {layout : Layout} {limits : BaselineLimits} {generation : ℕ} {c : Cache P}
    (h : Cache.new layout context generation limits = .ok c) :
    c.closed = false ∧ c.bytes ≤ limits.residentBytes := by
  simp only [Cache.new] at h
  split at h
  · cases h
  split_ifs at h
  split at h
  · split_ifs at h
    split at h
    · cases h
    rename_i bytes _
    split_ifs at h with hbudget
    cases h
    refine ⟨rfl, ?_⟩
    by_contra hlt
    refine hbudget ?_
    simp only [checkedAdd]
    split_ifs
    · simp only [Option.all_some, decide_eq_true_eq]
      exact (Nat.not_le.mp hlt).trans_le (Nat.le_add_right _ _)
    · rfl
  · cases h

theorem new {layout : Layout} (h : ServerBaselines.new layout context 1 Group.limits = .ok cache)
    (hentity : context.scope.entity = entity) : Member 1 entity context cache := by
  obtain ⟨c, hc, rfl⟩ := map_eq_ok.mp h
  obtain ⟨hopened, hbytes⟩ := new_opened hc
  obtain ⟨-, hcontext, hgeneration, hlimits, -⟩ := @Cache.new_sound P c [] _ _ _ _ hc
  exact ⟨hgeneration, hcontext, hentity, hopened, hbytes, hlimits⟩

/-- A cache with the same header and no more bytes. -/
theorem of_le {cache' : ServerBaselines P} (h : Member generation entity context cache)
    (hgeneration : cache'.cache.generation = cache.cache.generation)
    (hcontext : cache'.cache.context = cache.cache.context)
    (hopened : cache'.cache.closed = cache.cache.closed)
    (hlimits : cache'.cache.limits = cache.cache.limits)
    (hbytes : cache'.cache.bytes ≤ cache.cache.bytes) :
    Member generation entity context cache' :=
  ⟨hgeneration.trans h.current, hcontext.trans h.same, h.owned, hopened.trans h.opened,
    hbytes.trans h.bytes, hlimits.trans h.limits⟩

theorem acknowledge (h : Member generation entity context cache) (receipt : BaselineReceipt) :
    Member generation entity context (cache.acknowledge receipt).1 := by
  simp only [ServerBaselines.acknowledge]
  split
  · exact h
  · exact h.of_le rfl rfl rfl rfl le_rfl

section Payloads
variable [Payload P]

theorem retire (h : Member generation entity context cache) (request : BaselineRetirement) :
    Member generation entity context (cache.retire request).1 := by
  simp only [ServerBaselines.retire]
  split
  · exact h
  · simp only [Cache.discard]
    split_ifs
    · exact h
    · exact h.of_le rfl rfl rfl rfl (Nat.sub_le _ _)

/-- A reset begins unless the generations are used up. -/
theorem beginReset (h : Member generation entity context cache) :
    match checkedNext generation with
    | none => cache.beginReset = (cache, .error .resetRequired)
    | some next => Member next entity context cache.beginReset.1 ∧
        cache.beginReset.2 = .ok ⟨context, next⟩ := by
  simp only [ServerBaselines.beginReset, h.current]
  cases hnext : checkedNext generation with
  | none => rfl
  | some next =>
    obtain ⟨rfl, -⟩ := checkedNext_eq_some.mp hnext
    have hfresh : ¬(cache.cache.closed = true ∨ cache.cache.context ≠ cache.cache.context ∨
        generation + 1 < cache.cache.generation) := by
      rw [h.opened, h.current]
      simp
    have hlater : generation + 1 ≠ cache.cache.generation := by rw [h.current]; omega
    simp only [Cache.reset, if_neg hfresh, if_neg hlater]
    exact ⟨⟨rfl, h.same, h.owned, h.opened, (Nat.sub_le _ _).trans h.bytes, h.limits⟩,
      by rw [h.same]⟩

variable [DecidableEq P]

theorem check_bytes {cache : Cache P} {state : BaselineState P} (h : cache.check state = .ok true) :
    cache.bytes + Payload.retainedBytes state.payload ≤ cache.limits.residentBytes := by
  simp only [Cache.check] at h
  repeat' split at h
  all_goals first
    | (cases h; done)
    | skip
  rename_i hroom
  simp only [not_or, checkedAdd] at hroom
  split_ifs at hroom
  · simpa using hroom.2
  · simp at hroom

theorem transmit (h : Member generation entity context cache) (target : BaselineState P)
    (base : Option BaselineReceipt) (codec : BaselineCodec P) (send : BaselinePacket → Bool) :
    Member generation entity context (cache.transmit target base codec send).1 := by
  simp only [ServerBaselines.transmit]
  split
  · exact h
  rename_i insert packet hprepare
  split_ifs with hsend hinsert
  · exact h
  · refine ⟨h.current, h.same, h.owned, h.opened, ?_, h.limits⟩
    have hcheck := (ServerBaselines.prepare_ok hprepare).1
    rw [hinsert] at hcheck
    have hbytes := check_bytes hcheck
    rw [h.limits] at hbytes
    exact hbytes
  · exact h

end Payloads
end Member

/-! ### The group -/

/-- Every cache is that of a member in one generation. -/
def Members (generation : ℕ)
    (caches : ExtTreeMap EntityId (BaselineContext × ServerBaselines P)) : Prop :=
  ∀ (entity : EntityId) context cache, caches[entity]? = some (context, cache) →
    Member generation entity context cache

theorem Members.insert {generation : ℕ}
    {caches : ExtTreeMap EntityId (BaselineContext × ServerBaselines P)}
    (h : Members generation caches) {entity : EntityId} {context : BaselineContext}
    {cache : ServerBaselines P} (hm : Member generation entity context cache) :
    Members generation (caches.insert entity (context, cache)) := by
  intro e c m hlookup
  rw [lookup_insert] at hlookup
  split_ifs at hlookup with he
  · cases hlookup
    exact he ▸ hm
  · exact h e c m hlookup

namespace OwnerBaselines

/-- The invariant of the group. -/
structure Lockstep (group : OwnerBaselines P) : Prop where
  size : group.caches.size ≤ Group.members
  members : ∃ generation, Members generation group.caches

theorem lockstep_default : (default : OwnerBaselines P).Lockstep :=
  ⟨by simp [default], 0, fun e c m h => by simp [default] at h⟩

variable {group : OwnerBaselines P} {receipt : BaselineReceipt}

/-- Replacing the cache of a member. -/
theorem Lockstep.put (h : group.Lockstep) {entity : EntityId}
    {context : BaselineContext} {cache cache' : ServerBaselines P}
    (hlookup : group.caches[entity]? = some (context, cache))
    (hmember : ∀ generation, Member generation entity context cache →
      Member generation entity context cache') :
    Lockstep { group with caches := group.caches.insert entity (context, cache') } := by
  obtain ⟨generation, hm⟩ := h.members
  refine ⟨?_, generation, hm.insert (hmember _ (hm _ _ _ hlookup))⟩
  have hmem : group.caches.contains entity = true := by
    rw [contains_eq_isSome, hlookup]
    rfl
  rw [ExtTreeMap.size_insert, if_pos hmem]
  exact h.size

/-- The group is within its budget. -/
theorem Lockstep.checkBudget (h : group.Lockstep) : group.checkBudget = .ok () := by
  obtain ⟨generation, hm⟩ := h.members
  have hresident : group.resident ≤ group.caches.size * Group.limits.residentBytes :=
    total_le_mul fun entity member hlookup => (hm entity member.1 member.2 hlookup).bytes
  have hbound : group.caches.size * Group.limits.residentBytes ≤ Group.residentBytes :=
    Nat.mul_le_mul_right _ h.size
  refine if_neg fun hfull => ?_
  rcases hfull with hlt | hlt
  · exact absurd h.size (Nat.not_le.mpr hlt)
  · exact absurd (hresident.trans hbound) (Nat.not_le.mpr hlt)

/-! ### Contexts and resets -/

theorem openCaches_members (layout : Layout) (publication : GroupPublication)
    (states : List (FullState P))
    {caches : ExtTreeMap EntityId (BaselineContext × ServerBaselines P)} (h : Members 1 caches) :
    Members 1 (openCaches layout publication caches states).1 ∧
      (openCaches layout publication caches states).1.size ≤ caches.size + states.length := by
  induction states generalizing caches with
  | nil => exact ⟨h, Nat.le_refl _⟩
  | cons state states ih =>
    simp only [openCaches]
    split
    · exact ⟨h, Nat.le_add_right _ _⟩
    · rename_i cache hnew
      have hmember : Member 1 state.scope.entity (Group.context state publication) cache :=
        .new hnew rfl
      obtain ⟨hm, hsize⟩ := ih (h.insert hmember)
      have hinsert := ExtTreeMap.size_insert_le (t := caches) (k := state.scope.entity)
        (v := (Group.context state publication, cache))
      refine ⟨hm, ?_⟩
      rw [List.length_cons]
      omega

theorem prepareContexts_lockstep (layout : Layout) (h : group.Lockstep)
    (members : List (FullState P)) (publication : GroupPublication) :
    (group.prepareContexts layout members publication).1.Lockstep := by
  simp only [prepareContexts]
  split_ifs with hmanifest hchanged
  · exact h
  · have hempty :
        Members 1 (group.close.caches : ExtTreeMap EntityId
        (BaselineContext × ServerBaselines P)) :=
      fun e c m hlookup => by simp [close, default] at hlookup
    obtain ⟨hm, hsize⟩ := openCaches_members layout publication members hempty
    have hcount : members.length ≤ Group.members := by
      simp only [not_or, Bool.not_eq_true', Bool.not_eq_false, Group.validMemberCount,
        Bool.and_eq_true, decide_eq_true_eq] at hmanifest
      exact hmanifest.1.2
    have hsize' : (openCaches layout publication group.close.caches members).1.size ≤
        Group.members := by
      have hzero :
          (group.close.caches : ExtTreeMap EntityId
          (BaselineContext × ServerBaselines P)).size = 0 := by
        simp [close, default]
      omega
    rcases hopen : openCaches layout publication group.close.caches members
      with ⟨caches, _ | error⟩ <;>
      rw [hopen] at hm hsize' <;> exact ⟨hsize', 1, hm⟩
  · exact h

theorem nodup_of_distinct {α : Type} [DecidableEq α] {items : List α}
    (h : distinct items = items.length) : items.Nodup := by
  rw [← (List.dedup_sublist items).eq_of_length h]
  exact List.nodup_dedup items

/-- The members of a publication whose contexts are prepared are distinct. -/
theorem prepareContexts_nodup {layout : Layout} {group' : OwnerBaselines P}
    {members : List (FullState P)} {publication : GroupPublication}
    (h : group.prepareContexts layout members publication = (group', .ok ())) :
    (members.map (·.scope.entity)).Nodup := by
  simp only [prepareContexts] at h
  split_ifs at h with hmanifest
  · cases h
  all_goals
    simp only [not_or, not_not] at hmanifest
    exact nodup_of_distinct (hmanifest.2.trans (List.length_map _).symm)

/-- What beginning a reset leaves of a cache. -/
def reset [Payload P] (member : BaselineContext × ServerBaselines P) :
    BaselineContext × ServerBaselines P :=
  (member.1, member.2.beginReset.1)

section Resets
variable [Payload P] {generation : ℕ}
  {caches : ExtTreeMap EntityId (BaselineContext × ServerBaselines P)}

/-- Where the generations are used up, no cache is reset. -/
theorem resetCaches_error (hnext : checkedNext generation = none) (entities : List EntityId)
    (h : Members generation caches) : (resetCaches caches entities).1 = caches := by
  induction entities with
  | nil => rfl
  | cons entity entities ih =>
    simp only [resetCaches]
    split
    · exact ih
    · rename_i context cache hlookup
      have hreset := (h entity context cache hlookup).beginReset
      rw [hnext] at hreset
      rw [hreset]
      exact insert_of_some hlookup

/-- Otherwise every cache is. -/
theorem resetCaches_ok {next : ℕ} (hnext : checkedNext generation = some next)
    (entities : List EntityId) (hnodup : entities.Nodup)
    (h : ∀ entity ∈ entities, ∀ context cache, caches[entity]? = some (context, cache) →
      Member generation entity context cache) :
    (∃ resets, (resetCaches caches entities).2 = .ok resets) ∧
      ∀ e, (resetCaches caches entities).1[e]? = if e ∈ entities then caches[e]?.map reset
        else caches[e]? := by
  induction entities generalizing caches with
  | nil => exact ⟨⟨[], rfl⟩, fun e => by simp [resetCaches]⟩
  | cons entity entities ih =>
    obtain ⟨hfirst, hrest⟩ := List.nodup_cons.mp hnodup
    simp only [resetCaches]
    split
    · rename_i hnone
      obtain ⟨hok, hlookup⟩ := ih hrest fun e he => h e (List.mem_cons_of_mem _ he)
      refine ⟨hok, fun e => ?_⟩
      rw [hlookup e]
      by_cases he : e = entity
      · subst he
        simp [hfirst, hnone]
      · simp [he]
    · rename_i context cache hcache
      have hmember := (h entity List.mem_cons_self context cache hcache).beginReset
      rw [hnext] at hmember
      -- the caches that are still to be reset are as they were
      have hlater : ∀ e ∈ entities, ∀ c m,
          (caches.insert entity (context, cache.beginReset.1))[e]? = some (c, m) →
            Member generation e c m := by
        intro e he c m hlookup
        rw [lookup_insert, if_neg (by rintro rfl; exact hfirst he)] at hlookup
        exact h e (List.mem_cons_of_mem _ he) c m hlookup
      obtain ⟨⟨resets, hok⟩, hlookup⟩ := ih hrest hlater
      rcases hbegin : cache.beginReset with ⟨cache', answer⟩
      rw [hbegin] at hmember hok hlookup
      obtain ⟨-, rfl⟩ := hmember
      refine ⟨⟨⟨context, next⟩ :: resets, by simp [hok, Except.map]⟩, fun e => ?_⟩
      simp only [Prod.map_fst, id, hlookup e, lookup_insert]
      by_cases he : e = entity
      · subst he
        simp [hfirst, hcache, reset, hbegin]
      · simp [he, Ne.symm he]

/-- A reset of the group moves every cache to the next generation, or none. -/
theorem beginResets_lockstep {group : OwnerBaselines P} (h : group.Lockstep) :
    group.beginResets.1.Lockstep := by
  obtain ⟨generation, hm⟩ := h.members
  cases hnext : checkedNext generation with
  | none =>
    have hsame := resetCaches_error hnext group.caches.keys hm
    simp only [beginResets]
    rcases hreset : resetCaches group.caches group.caches.keys with ⟨caches, _ | resets⟩ <;>
      rw [hreset] at hsame <;> obtain rfl := hsame <;> exact ⟨h.size, generation, hm⟩
  | some next =>
    have hmember : ∀ entity ∈ group.caches.keys, ∀ context cache, group.caches[entity]? =
        some (context, cache) → Member generation entity context cache := fun entity _ => hm entity
    obtain ⟨⟨resets, hok⟩, hlookup⟩ :=
      resetCaches_ok hnext group.caches.keys ExtTreeMap.nodup_keys hmember
    simp only [beginResets]
    rcases hreset : resetCaches group.caches group.caches.keys with ⟨caches, answer⟩
    rw [hreset] at hok hlookup
    obtain rfl := hok
    have hmap : caches = group.caches.map fun _ member => reset member := by
      refine ExtTreeMap.ext_getElem? fun e => ?_
      rw [hlookup e, ExtTreeMap.getElem?_map]
      split_ifs with hmem
      · rfl
      · rw [mem_keys_iff, not_exists] at hmem
        rw [Option.eq_none_iff_forall_ne_some.mpr hmem]
        rfl
    refine ⟨?_, next, fun e c m hlookup' => ?_⟩
    · dsimp only
      rw [hmap, ExtTreeMap.size_map]
      exact h.size
    · dsimp only at hlookup'
      rw [hmap, ExtTreeMap.getElem?_map] at hlookup'
      obtain ⟨member, hmember, hc⟩ := Option.map_eq_some_iff.mp hlookup'
      have hnew := (hm e member.1 member.2 hmember).beginReset
      rw [hnext] at hnew
      cases hc
      exact hnew.1

end Resets

/-! ### Publications -/

section Publications
variable [DecidableEq P] [Payload P] {layout : Layout} {codec : BaselineCodec P}

omit [DecidableEq P] [Payload P] in
/-- What an encoding that succeeds says of its base, the base it names gives again. -/
theorem encode_baseOf {cache : ServerBaselines P} {target : BaselineState P}
    {base : Option BaselineReceipt} {encoding : BaselineEncoding × ByteVec}
    (h : cache.encode target base codec = .ok encoding) :
    cache.encode target (baseOf encoding.1) codec = .ok encoding := by
  have hfull : (ServerBaselines.encodeFull codec target.payload cache.cache.limits.packetBytes).map
      (BaselineEncoding.full, ·) = .ok encoding → cache.encode target (baseOf encoding.1) codec =
        .ok encoding := by
    intro hfull
    obtain ⟨bytes, -, rfl⟩ := map_eq_ok.mp hfull
    exact hfull
  cases base with
  | none => exact hfull h
  | some base =>
    have hsame := h
    simp only [ServerBaselines.encode] at h
    split at h
    · cases h
    split_ifs at h
    split at h
    · cases h
    split at h
    · split_ifs at h
      · cases h
        exact hsame
      · exact hfull h
    · exact hfull h
    · cases h

variable {group group' : OwnerBaselines P} {publication : GroupPublication}
  {packets : List BaselinePacket}

/-- The cache of a member holds the state its packet was built of, in the generation of the
cache. -/
def Entered (group : OwnerBaselines P) (publication : GroupPublication) (state : FullState P)
    (packet : BaselinePacket) : Prop :=
  ∃ context cache, group.caches[state.scope.entity]? = some (context, cache) ∧
    packet.target = Group.target state publication cache.cache.generation ∧
    ⟨packet.target, state.payload⟩ ∈ cache.cache.states

/-- A transmission that was accepted leaves its target in the cache: it was inserted, or was
there. -/
theorem transmit_states {cache cache' : ServerBaselines P} {target : BaselineState P}
    {base : Option BaselineReceipt} {send : BaselinePacket → Bool}
    (h : cache.transmit target base codec send = (cache', .ok true)) :
    cache'.cache.generation = cache.cache.generation ∧ target ∈ cache'.cache.states := by
  simp only [ServerBaselines.transmit] at h
  split at h
  · cases h
  rename_i insert packet hprepare
  obtain ⟨-, -, hheld⟩ := Cache.check_ok (ServerBaselines.prepare_ok hprepare).1
  split_ifs at h <;> cases h
  · exact ⟨rfl, Cache.mem_states.mpr ⟨_, List.mem_append_right _ List.mem_cons_self, rfl⟩⟩
  · exact ⟨rfl, by simpa [*] using hheld⟩

/-- A previewed member is entered. -/
theorem markMember_of_preview {state : FullState P}
    {packet : BaselinePacket} (h : group.previewMember codec publication state = .ok packet) :
    (group.markMember codec state packet).2 = .ok () ∧
      (group.markMember codec state packet).1.Entered publication state packet := by
  simp only [previewMember] at h
  split at h
  · cases h
  rename_i context cache hlookup
  obtain ⟨⟨insert, target, encoding, bytes⟩, hprepare, rfl⟩ := map_eq_ok.mp h
  obtain ⟨hcheck, hvalid, rfl, hencode⟩ := ServerBaselines.prepare_ok hprepare
  have hagain := encode_baseOf hencode
  simp only [markMember, hlookup]
  -- the cache decides the transmission as it decided the preview
  rcases htransmit : cache.transmit _ _ codec _ with ⟨cache', answer⟩
  obtain rfl : answer = .ok true := by
    refine (congrArg Prod.snd htransmit).symm.trans ?_
    simp [ServerBaselines.transmit, ServerBaselines.prepare, hcheck, hvalid, hagain, Except.map,
      samePacket]
  obtain ⟨hgeneration, hstates⟩ := transmit_states htransmit
  refine ⟨rfl, context, cache', ?_, ?_, hstates⟩
  · rw [lookup_insert, if_pos rfl]
  · rw [hgeneration]

theorem markMember_lockstep (h : group.Lockstep) (state : FullState P)
    (packet : BaselinePacket) : (group.markMember codec state packet).1.Lockstep := by
  simp only [markMember]
  split
  · exact h
  · rename_i context cache hlookup
    exact h.put hlookup fun generation hm => hm.transmit _ _ _ _

/-- Entering a member leaves the other caches alone. -/
theorem markMember_other (group : OwnerBaselines P) (state : FullState P)
    (packet : BaselinePacket) {entity : EntityId} (hne : state.scope.entity ≠ entity) :
    (group.markMember codec state packet).1.caches[entity]? = group.caches[entity]? := by
  simp only [markMember]
  split
  · rfl
  · rw [lookup_insert, if_neg hne]

theorem markMembers_lockstep (sent : List (FullState P × BaselinePacket))
    (h : group.Lockstep) : (group.markMembers codec sent).1.Lockstep := by
  induction sent generalizing group with
  | nil => exact h
  | cons item rest ih =>
    obtain ⟨state, packet⟩ := item
    have hnext : (group.markMember codec state packet).1.Lockstep :=
      markMember_lockstep h state packet
    simp only [markMembers]
    rcases hmark : group.markMember codec state packet with ⟨group', _ | _⟩ <;> rw [hmark] at hnext
    · exact hnext
    · exact ih hnext

theorem markMembers_other (sent : List (FullState P × BaselinePacket)) {entity : EntityId}
    (hnot : ∀ item ∈ sent, item.1.scope.entity ≠ entity) :
    (group.markMembers codec sent).1.caches[entity]? = group.caches[entity]? := by
  induction sent generalizing group with
  | nil => rfl
  | cons item rest ih =>
    obtain ⟨state, packet⟩ := item
    have hfirst : (group.markMember codec state packet).1.caches[entity]? = group.caches[entity]? :=
      markMember_other _ _ _ (hnot _ List.mem_cons_self)
    simp only [markMembers]
    rcases hmark : group.markMember codec state packet with ⟨group', _ | _⟩ <;> rw [hmark] at hfirst
    · exact hfirst
    · exact (ih fun item hitem => hnot item (List.mem_cons_of_mem _ hitem)).trans hfirst

/-- A previewed publication is entered in every cache. -/
theorem markMembers_of_preview (members : List (FullState P))
    (hnodup : (members.map (·.scope.entity)).Nodup)
    (h : group.preview codec publication members = .ok packets)
    (hsame : ∀ state ∈ members, group'.caches[state.scope.entity]? =
      group.caches[state.scope.entity]?) :
    (group'.markMembers codec (members.zip packets)).2 = .ok () ∧
      ∀ item ∈ members.zip packets,
        (group'.markMembers codec (members.zip packets)).1.Entered publication item.1 item.2 := by
  induction members generalizing packets group' with
  | nil => exact ⟨rfl, by simp⟩
  | cons state states ih =>
    obtain ⟨hfirst, hrest⟩ := List.nodup_cons.mp hnodup
    obtain ⟨packet, hpacket, htail⟩ := bind_eq_ok.mp h
    obtain ⟨packets', hpackets, rfl⟩ := map_eq_ok.mp htail
    have hpreview : group'.previewMember codec publication state = .ok packet := by
      rw [← hpacket]
      simp only [previewMember, hsame state List.mem_cons_self]
    obtain ⟨hmark, hentry⟩ := markMember_of_preview hpreview
    have hne : ∀ other ∈ states, other.scope.entity ≠ state.scope.entity := fun other hmem heq =>
      hfirst (List.mem_map.mpr ⟨other, hmem, heq⟩)
    have hother : ∀ other ∈ states,
        (group'.markMember codec state packet).1.caches[other.scope.entity]? =
        group.caches[other.scope.entity]? := by
      intro other hmem
      rw [markMember_other _ _ _ (hne other hmem).symm, hsame other (List.mem_cons_of_mem _ hmem)]
    simp only [List.zip_cons_cons, markMembers]
    rcases hentered : group'.markMember codec state packet with ⟨group₁, answer⟩
    rw [hentered] at hmark hother hentry
    obtain rfl := hmark
    obtain ⟨hdone, hitems⟩ := ih hrest hpackets hother
    refine ⟨hdone, fun item hitem => ?_⟩
    rcases List.mem_cons.mp hitem with rfl | hitem
    · -- the later members have other caches
      obtain ⟨context, cache, hlookup, hheld⟩ := hentry
      refine ⟨context, cache, ?_, hheld⟩
      rw [markMembers_other _ fun other hmem => hne _ (List.of_mem_zip hmem).1]
      exact hlookup
    · exact hitems item hitem

theorem prepare_lockstep (h : group.Lockstep) (members : List (FullState P))
    (publication : GroupPublication) :
    (group.prepare layout codec members publication).1.Lockstep := by
  have hcontexts := prepareContexts_lockstep layout h members publication
  simp only [prepare]
  rcases hprepared : group.prepareContexts layout members publication with ⟨group', _ | _⟩ <;>
    rw [hprepared] at hcontexts
  · exact hcontexts
  have hresets := beginResets_lockstep hcontexts
  dsimp only at hcontexts ⊢
  split
  · exact hcontexts
  split
  · exact hcontexts
  · split_ifs
    · exact hcontexts
    · rcases hbegun : group'.beginResets with ⟨group₁, _ | _⟩ <;> rw [hbegun] at hresets
      · exact hresets
      · dsimp only
        split <;> exact hresets
  · exact hcontexts

/-- A publication that is prepared has distinct members, and its packets are what the caches
preview. -/
theorem prepare_ok {members : List (FullState P)}
    (h : group.prepare layout codec members publication = (group', .ok (some packets))) :
    (members.map (·.scope.entity)).Nodup ∧ group'.preview codec publication members =
    .ok packets := by
  simp only [prepare] at h
  rcases hprepared : group.prepareContexts layout members publication with ⟨group₁, _ | _⟩ <;>
    rw [hprepared] at h
  · cases h
  refine ⟨prepareContexts_nodup hprepared, ?_⟩
  dsimp only at h
  split at h
  · cases h
  split at h
  · rename_i hpreview
    cases h
    exact hpreview
  · split_ifs at h
    · cases h
    rcases hbegun : group₁.beginResets with ⟨group₂, _ | _⟩ <;> rw [hbegun] at h
    · cases h
    dsimp only at h
    split at h
    · rename_i hpreview
      cases h
      exact hpreview
    · cases h
  · cases h

end Publications

/-! ### Updates of every item's cache -/

section Updates
variable {α β : Type} {entity : α → EntityId}
  {update : ServerBaselines P → α → ServerBaselines P × Except ReplicationError β}

variable {group : OwnerBaselines P}

/-- An update that keeps members keeps the group. -/
theorem updateAll_lockstep
    (hupdate : ∀ generation e context cache item, Member generation e context cache →
      Member generation e context (update cache item).1)
    (items : List α) (h : group.Lockstep) :
    (group.updateAll entity update items).1.Lockstep := by
  induction items generalizing group with
  | nil => exact h
  | cons item items ih =>
    simp only [updateAll]
    split
    · exact h
    rename_i context cache hlookup
    have hput := h.put hlookup fun generation hm => hupdate generation _ _ _ item hm
    rcases hresult : update cache item with ⟨cache', _ | _⟩ <;> rw [hresult] at hput
    · exact hput
    · exact ih hput

/-- The cache of an item and the update of it, which succeeds. -/
def Updates (entity : α → EntityId)
    (update : ServerBaselines P → α → ServerBaselines P × Except ReplicationError β)
    (group group' : OwnerBaselines P) (item : α) : Prop :=
  ∃ context cache b, group.caches[entity item]? = some (context, cache) ∧
    (update cache item).2 = .ok b ∧ group'.caches[entity item]? =
      some (context, (update cache item).1)

/-- **An update of distinct members that each would succeed alone succeeds.** -/
theorem updateAll_ok (items : List α) (hnodup : (items.map entity).Nodup)
    (h : ∀ item ∈ items, ∃ context cache b, group.caches[entity item]? = some (context, cache) ∧
      (update cache item).2 = .ok b) :
    (group.updateAll entity update items).2 = .ok () ∧
      (∀ item ∈ items, Updates entity update group (group.updateAll entity update items).1 item) ∧
      ∀ e, e ∉ items.map entity →
        (group.updateAll entity update items).1.caches[e]? = group.caches[e]? := by
  induction items generalizing group with
  | nil => exact ⟨rfl, by simp, fun _ _ => rfl⟩
  | cons item items ih =>
    obtain ⟨hfirst, hrest⟩ := List.nodup_cons.mp hnodup
    obtain ⟨context, cache, b, hlookup, hok⟩ := h item List.mem_cons_self
    have hother : ∀ e, e ≠ entity item →
        (group.caches.insert (entity item) (context, (update cache item).1))[e]? =
          group.caches[e]? :=
      fun e he => by rw [lookup_insert, if_neg (Ne.symm he)]
    have hne : ∀ other ∈ items, entity other ≠ entity item := fun other hmem heq =>
      hfirst (List.mem_map.mpr ⟨other, hmem, heq⟩)
    obtain ⟨hdone, hitems, hothers⟩ := @ih
      { group with caches := group.caches.insert (entity item) (context,
        (update cache item).1) } hrest
      fun other hmem => by
        obtain ⟨c, m, b', hl, ho⟩ := h other (List.mem_cons_of_mem _ hmem)
        exact ⟨c, m, b', (hother _ (hne other hmem)).trans hl, ho⟩
    have hrun : group.updateAll entity update (item :: items) =
        updateAll entity update
          { group with caches := group.caches.insert (entity item) (context,
            (update cache item).1) } items := by
      simp only [updateAll, hlookup]
      rcases hresult : update cache item with ⟨cache', answer⟩
      rw [hresult] at hok
      obtain rfl := hok
      rfl
    rw [hrun]
    refine ⟨hdone, fun other hmem => ?_, fun e he => ?_⟩
    · rcases List.mem_cons.mp hmem with rfl | hmem
      · refine ⟨context, cache, b, hlookup, hok, ?_⟩
        rw [hothers _ hfirst]
        dsimp only
        rw [lookup_insert, if_pos rfl]
      · obtain ⟨c, m, b', hl, ho, hnew⟩ := hitems other hmem
        exact ⟨c, m, b', (hother _ (hne other hmem)).symm.trans hl, ho, hnew⟩
    · rw [List.map_cons, List.mem_cons, not_or] at he
      rw [hothers e he.2]
      exact hother e he.1

end Updates

/-! ### Proofs and retirements -/

theorem checkProofs_ok {first : DecodedBaseline} (proofs : List DecodedBaseline)
    (h : group.checkProofs first proofs = .ok true) (proof : DecodedBaseline)
    (hmem : proof ∈ proofs) :
    ∃ context cache entry, group.caches[proof.state.scope.entity]? = some (context, cache) ∧
      cache.cache.entry proof.baseline = .ok entry := by
  induction proofs with
  | nil => cases hmem
  | cons p proofs ih =>
    simp only [checkProofs] at h
    split at h
    · cases h
    rename_i context cache hlookup
    split_ifs at h
    · cases h
    split at h
    · cases h
    rename_i entry hentry
    rcases List.mem_cons.mp hmem with rfl | hmem
    · exact ⟨context, cache, entry, hlookup, hentry⟩
    · exact ih h hmem

/-- Proofs that pass name every member once, each with a state its cache holds. -/
theorem validateProofs_ok {proofs : List DecodedBaseline}
    (h : group.validateProofs proofs = .ok true) :
    (proofs.map (·.state.scope.entity)).Nodup ∧
      (∀ entity, entity ∈ group.caches → entity ∈ proofs.map (·.state.scope.entity)) ∧
      ∀ proof ∈ proofs, ∃ context cache entry,
        group.caches[proof.state.scope.entity]? = some (context, cache) ∧
          cache.cache.entry proof.baseline = .ok entry := by
  simp only [validateProofs] at h
  split at h
  · cases h
  split at h
  · cases h
  rename_i hcount
  simp only [not_or, not_not] at hcount
  obtain ⟨hlength, hdistinct⟩ := hcount
  have hheld : ∀ proof ∈ proofs, ∃ context cache entry,
      group.caches[proof.state.scope.entity]? = some (context, cache) ∧
        cache.cache.entry proof.baseline = .ok entry := by
    cases proofs with
    | nil => cases h
    | cons first rest => exact checkProofs_ok _ h
  have hnodup : (proofs.map (·.state.scope.entity)).Nodup := by
    refine nodup_of_distinct ?_
    rw [hdistinct, List.length_map, hlength]
  refine ⟨hnodup, fun entity hentity => ?_, hheld⟩
  -- as many different members as there are caches, all of them cached: every cache is named
  have hsubset : proofs.map (·.state.scope.entity) ⊆ group.caches.keys := by
    intro e he
    obtain ⟨proof, hproof, rfl⟩ := List.mem_map.mp he
    obtain ⟨context, cache, -, hlookup, -⟩ := hheld proof hproof
    exact mem_keys_iff.mpr ⟨_, hlookup⟩
  have hperm := (List.subperm_of_subset hnodup hsubset).perm_of_length_le
    (by rw [ExtTreeMap.length_keys, List.length_map, hlength])
  exact hperm.mem_iff.mpr (ExtTreeMap.mem_keys.mpr hentity)

/-- The state named is marked decoded. -/
theorem exists_markDecoded {entries : List (Entry P)}
    (h : ∃ e ∈ entries, e.state.receipt = receipt) :
    ∃ e ∈ ServerBaselines.markDecoded receipt entries, e.state.receipt = receipt ∧
      e.decoded = true := by
  induction entries with
  | nil => simp at h
  | cons e es ih =>
    simp only [ServerBaselines.markDecoded]
    by_cases he : e.state.receipt = receipt
    · rw [if_pos he]
      exact ⟨_, List.mem_cons_self, he, rfl⟩
    · rw [if_neg he]
      obtain ⟨e', hmem, hreceipt⟩ := h
      rcases List.mem_cons.mp hmem with rfl | hmem
      · exact absurd hreceipt he
      · obtain ⟨d, hd, hdecoded⟩ := ih ⟨e', hmem, hreceipt⟩
        exact ⟨d, List.mem_cons_of_mem _ hd, hdecoded⟩

theorem acknowledge_entry {cache : ServerBaselines P} {entry : Entry P}
    (h : cache.cache.entry receipt = .ok entry) :
    (cache.acknowledge receipt).2 = .ok () ∧
      ∃ e ∈ (cache.acknowledge receipt).1.cache.entries, e.state.receipt = receipt ∧
        e.decoded = true := by
  simp only [ServerBaselines.acknowledge, h]
  refine ⟨trivial, exists_markDecoded ⟨entry, ?_⟩⟩
  simp only [Cache.entry] at h
  split at h
  · cases h
  split at h
  · cases h
  rename_i e hfind
  split_ifs at h with hreceipt
  cases h
  exact ⟨(Cache.find_some hfind).1, not_not.mp hreceipt⟩

/-- **An acknowledgement marks the baseline of every member decoded, or changes no cache.** -/
theorem acknowledge_cases (group : OwnerBaselines P) (proofs : List DecodedBaseline) :
    (group.acknowledge proofs).1.caches = group.caches ∨
      (group.acknowledge proofs).2 = .ok true ∧
      ∀ (entity : EntityId) context cache, group.caches[entity]? = some (context, cache) →
        ∃ proof ∈ proofs, proof.state.scope.entity = entity ∧ ∃ cache',
          (group.acknowledge proofs).1.caches[entity]? = some (context, cache') ∧
          ∃ e ∈ cache'.cache.entries, e.state.receipt = proof.baseline ∧ e.decoded = true := by
  simp only [acknowledge]
  split
  · exact .inl rfl
  · exact .inl rfl
  rename_i hvalid
  obtain ⟨hnodup, hcovers, hheld⟩ := validateProofs_ok hvalid
  have hsucceeds : ∀ proof ∈ proofs, ∃ context cache b,
      group.caches[proof.state.scope.entity]? = some (context, cache) ∧
        (ServerBaselines.acknowledge cache proof.baseline).2 = .ok b := by
    intro proof hproof
    obtain ⟨context, cache, entry, hlookup, hentry⟩ := hheld proof hproof
    exact ⟨context, cache, (), hlookup, (acknowledge_entry hentry).1⟩
  obtain ⟨hdone, hitems, -⟩ := updateAll_ok proofs hnodup hsucceeds
  rcases hrun : group.acknowledgeAll proofs with ⟨group', answer⟩
  simp only [acknowledgeAll] at hrun
  rw [hrun] at hdone hitems
  obtain rfl := hdone
  refine .inr ⟨rfl, fun entity context cache hlookup => ?_⟩
  obtain ⟨proof, hproof, rfl⟩ := List.mem_map.mp (hcovers entity (by
    rw [ExtTreeMap.mem_iff_isSome_getElem?, hlookup]
    rfl))
  obtain ⟨context', cache', -, hlookup', -, hnew⟩ := hitems proof hproof
  obtain ⟨c, m, entry, hl, hentry⟩ := hheld proof hproof
  rw [hlookup] at hlookup' hl
  cases hlookup'
  cases hl
  exact ⟨proof, hproof, rfl, _, hnew, (acknowledge_entry hentry).2⟩

theorem checkRetirements_ok (requests : List BaselineRetirement)
    (h : group.checkRetirements requests = .ok true) (request : BaselineRetirement)
    (hmem : request ∈ requests) :
    ∃ context cache, group.caches[request.context.scope.entity]? = some (context, cache) ∧
      cache.cache.retirement request = none := by
  induction requests with
  | nil => cases hmem
  | cons r requests ih =>
    simp only [checkRetirements] at h
    split at h
    · cases h
    rename_i context cache hlookup
    split_ifs at h
    · cases h
    split at h
    · cases h
    rename_i hallowed
    rcases List.mem_cons.mp hmem with rfl | hmem
    · exact ⟨context, cache, hlookup, hallowed⟩
    · exact ih h hmem

/-- **A retirement applies every request, or changes no cache.** -/
theorem retire_cases [Payload P] (group : OwnerBaselines P) (requests : List BaselineRetirement) :
    (group.retire requests).1.caches = group.caches ∨
      (group.retire requests).2 = .ok (some requests) ∧
      ∀ request ∈ requests,
        Updates (·.context.scope.entity) ServerBaselines.retire group (group.retire requests).1
          request := by
  simp only [retire]
  split
  · exact .inl rfl
  rename_i hdistinct
  have hnodup : (requests.map (·.context.scope.entity)).Nodup :=
    nodup_of_distinct ((not_not.mp hdistinct).trans (List.length_map _).symm)
  split
  · exact .inl rfl
  · exact .inl rfl
  rename_i hallowed
  have hsucceeds : ∀ request ∈ requests, ∃ context cache b,
      group.caches[request.context.scope.entity]? = some (context, cache) ∧
        (ServerBaselines.retire cache request).2 = .ok b := by
    intro request hrequest
    obtain ⟨context, cache, hlookup, hnone⟩ :=
      checkRetirements_ok requests hallowed request hrequest
    exact ⟨context, cache, request, hlookup, by simp only [ServerBaselines.retire, hnone]⟩
  obtain ⟨hdone, hitems, -⟩ := updateAll_ok requests hnodup hsucceeds
  rcases hrun : group.retireAll requests with ⟨group', answer⟩
  simp only [retireAll] at hrun
  rw [hrun] at hdone hitems
  obtain rfl := hdone
  exact .inr ⟨rfl, hitems⟩

/-! ### Runs -/

inductive Call (P : Type) where
  | prepare (members : List (FullState P)) (publication : GroupPublication)
  | markSent (members : List (FullState P)) (packets : List BaselinePacket)
  | acknowledge (proofs : List DecodedBaseline)
  | retire (requests : List BaselineRetirement)
  | repair (requests : List BaselineRepair)
  | close

section Runs
variable [DecidableEq P] [Payload P] (layout : Layout) (codec : BaselineCodec P)

def step (group : OwnerBaselines P) : Call P → OwnerBaselines P
  | .prepare members publication => (group.prepare layout codec members publication).1
  | .markSent members packets => (group.markSent codec members packets).1
  | .acknowledge proofs => (group.acknowledge proofs).1
  | .retire requests => (group.retire requests).1
  | .repair requests => (group.repair requests).1
  | .close => group.close

variable {layout codec} {group : OwnerBaselines P} {publication : GroupPublication}
  {packets : List BaselinePacket}

theorem markSent_lockstep (h : group.Lockstep) (members : List (FullState P))
    (packets : List BaselinePacket) : (group.markSent codec members packets).1.Lockstep := by
  have hmarked : (group.markMembers codec (members.zip packets)).1.Lockstep :=
    markMembers_lockstep _ h
  simp only [markSent]
  rcases hrun : group.markMembers codec (members.zip packets) with ⟨group', _ | _⟩ <;>
    rw [hrun] at hmarked <;>
    exact hmarked

omit [DecidableEq P] [Payload P] in
theorem acknowledge_lockstep (h : group.Lockstep) (proofs : List DecodedBaseline) :
    (group.acknowledge proofs).1.Lockstep := by
  have hall : (group.acknowledgeAll proofs).1.Lockstep :=
    updateAll_lockstep (fun _ _ _ _ proof hm => hm.acknowledge proof.baseline) proofs h
  simp only [acknowledge]
  split
  · exact h
  · exact h
  rcases hrun : group.acknowledgeAll proofs with ⟨group', _ | _ | _⟩ <;> rw [hrun] at hall
  · exact ⟨hall.size, hall.members⟩
  · exact hall
  · exact hall

omit [DecidableEq P] in
theorem retire_lockstep (h : group.Lockstep) (requests : List BaselineRetirement) :
    (group.retire requests).1.Lockstep := by
  have hall : (group.retireAll requests).1.Lockstep :=
    updateAll_lockstep (fun _ _ _ _ request hm => hm.retire request) requests h
  simp only [retire]
  split
  · exact h
  split
  · exact h
  · exact h
  rcases hrun : group.retireAll requests with ⟨group', _ | _ | _⟩ <;> rw [hrun] at hall <;>
    exact hall

/-- **Every operation keeps the group in lockstep.** -/
theorem Lockstep.step (h : group.Lockstep) (call : Call P) :
    (group.step layout codec call).Lockstep := by
  cases call with
  | prepare members publication => exact prepare_lockstep h members publication
  | markSent members packets => exact markSent_lockstep h members packets
  | acknowledge proofs => exact acknowledge_lockstep h proofs
  | retire requests => exact retire_lockstep h requests
  | repair requests =>
    simp only [OwnerBaselines.step, repair]
    split_ifs
    · exact h
    · exact h
    · exact beginResets_lockstep h
  | close => exact lockstep_default

/-- A preview has one packet a member. -/
theorem preview_length (members : List (FullState P))
    (h : group.preview codec publication members = .ok packets) :
    packets.length = members.length := by
  induction members generalizing packets with
  | nil => cases h; rfl
  | cons state states ih =>
    obtain ⟨packet, -, htail⟩ := bind_eq_ok.mp h
    obtain ⟨packets', hpackets, rfl⟩ := map_eq_ok.mp htail
    rw [List.length_cons, List.length_cons, ih hpackets]

/-- A prepared publication that is marked as sent at once is entered in the cache of every
member. -/
theorem markSent_of_prepare {group' : OwnerBaselines P} (h : group.Lockstep)
    {members : List (FullState P)}
    (hprepared : group.prepare layout codec members publication = (group', .ok (some packets))) :
    packets.length = members.length ∧ (group'.markSent codec members packets).2 = .ok () ∧
      ∀ item ∈ members.zip packets,
        (group'.markSent codec members packets).1.Entered publication item.1 item.2 := by
  obtain ⟨hnodup, hpreview⟩ := prepare_ok hprepared
  refine ⟨preview_length members hpreview, ?_⟩
  have hlock : group'.Lockstep := by
    have hstep : (group.prepare layout codec members publication).1.Lockstep :=
      prepare_lockstep h members publication
    rwa [hprepared] at hstep
  have hmarked : (group'.markMembers codec (members.zip packets)).1.Lockstep :=
    markMembers_lockstep _ hlock
  obtain ⟨hok, hentered⟩ := markMembers_of_preview members hnodup hpreview fun _ _ => rfl
  simp only [markSent]
  rcases hrun : group'.markMembers codec (members.zip packets) with ⟨group₁, answer⟩
  rw [hrun] at hok hmarked hentered
  obtain rfl := hok
  exact ⟨hmarked.checkBudget, hentered⟩

variable (layout codec) in
/-- What the operations on a group do to its caches. -/
structure MovesTogether (group : OwnerBaselines P) : Prop where
  generation : ∃ generation, ∀ (entity : EntityId) context cache,
    group.caches[entity]? = some (context, cache) → cache.cache.generation = generation
  acknowledge : ∀ proofs, (group.acknowledge proofs).1.caches = group.caches ∨
    (group.acknowledge proofs).2 = .ok true ∧
    ∀ (entity : EntityId) context cache, group.caches[entity]? = some (context, cache) →
      ∃ proof ∈ proofs, proof.state.scope.entity = entity ∧ ∃ cache',
        (group.acknowledge proofs).1.caches[entity]? = some (context, cache') ∧
        ∃ e ∈ cache'.cache.entries, e.state.receipt = proof.baseline ∧ e.decoded = true
  retire : ∀ requests, (group.retire requests).1.caches = group.caches ∨
    (group.retire requests).2 = .ok (some requests) ∧
    ∀ request ∈ requests,
      Updates (·.context.scope.entity) ServerBaselines.retire group
        (group.retire requests).1 request
  publish : ∀ members publication packets group',
    group.prepare layout codec members publication = (group', .ok (some packets)) →
    packets.length = members.length ∧ (group'.markSent codec members packets).2 = .ok () ∧
    ∀ item ∈ members.zip packets,
      (group'.markSent codec members packets).1.Entered publication item.1 item.2

/-- **The caches of an owner group move in lockstep**, in every run of the operations on the
group. -/
theorem owner_group_lockstep (calls : List (Call P)) :
    MovesTogether layout codec (run (step layout codec) default calls) := by
  have h : (run (step layout codec) default calls).Lockstep :=
    run_invariant (I := Lockstep) (fun group call hg => hg.step call) lockstep_default calls
  obtain ⟨generation, hm⟩ := h.members
  exact ⟨⟨generation, fun entity context cache hlookup =>
    (hm entity context cache hlookup).current⟩, acknowledge_cases _, retire_cases _,
    fun _ _ _ _ hprepared => markSent_of_prepare h hprepared⟩

/-- Three members are prepared, sent and acknowledged: every cache holds its member's state and
takes the proof of it. -/
theorem owner_group_lockstep_acknowledged :
    let layout : Layout := ⟨8, 16, id⟩
    let member (index : ℕ) : FullState (List UInt8) := ⟨⟨1, ⟨index, 1⟩, 1, 1⟩, 1, 1, 1, 10, [1, 2]⟩
    let members := [member 1, member 2, member 3]
    let publication : GroupPublication := ⟨9, 4, 1, 1⟩
    let packets : List BaselinePacket := members.map fun state =>
      ⟨Group.target state publication 1, .full, ⟨[1, 2], 2, le_rfl⟩⟩
    let proofs : List DecodedBaseline := members.map fun state =>
      ⟨state.receipt, Group.target state publication 1⟩
    let prepared := default.prepare layout unchangedCodec members publication
    let sent := prepared.1.markSent unchangedCodec members packets
    prepared.2 = .ok (some packets) ∧ sent.2 = .ok () ∧
      (∀ item ∈ members.zip packets, sent.1.Entered publication item.1 item.2) ∧
      (sent.1.acknowledge proofs).2 = .ok true ∧
      (sent.1.acknowledge proofs).1.caches.toList.map (fun cached => newestDecoded cached.2.2) =
        packets.map fun packet => some packet.target := by
  intro layout member members publication packets proofs prepared sent
  have hprepared : prepared.2 = .ok (some packets) := by decide +kernel
  have hmoves : MovesTogether layout unchangedCodec (default : OwnerBaselines (List UInt8)) :=
    owner_group_lockstep []
  have hpair : prepared = (prepared.1, .ok (some packets)) := by rw [← hprepared]
  obtain ⟨-, hsent, hentered⟩ := hmoves.publish members publication packets prepared.1 hpair
  exact ⟨hprepared, hsent, hentered, by decide +kernel, by decide +kernel⟩

end Runs
end OwnerBaselines
end Dreamwake
