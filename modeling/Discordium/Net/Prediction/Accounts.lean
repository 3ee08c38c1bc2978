import Discordium.Net.Prediction.Charges

/-!
# Net — Prediction — Accounts

The accounts of a manager.  `Balanced`: its bytes are those of its groups and its fences and stay
within the limit, its entities are the members of its groups, and the books of every group are in
order.  Every call keeps the accounts and no subtraction of one fails; a call that answers an error
changes nothing but the work done and, in the group it is about, the reason for a recovery.
-/

namespace Net.Prediction
open Lib
open Std (ExtTreeMap)

namespace TopologyFences
variable {S C D : Type} [PredictionLayout S C D]

/-! ### Fences -/

/-- Fewer marks cost no more. -/
theorem bytesFor_le {groups members groups' members' bytes : ℕ}
    (h : bytesFor S C D groups members = some bytes) (hg : groups' ≤ groups)
    (hm : members' ≤ members) :
    ∃ bytes' ≤ bytes, bytesFor S C D groups' members' = some bytes' := by
  obtain ⟨a, ha, h⟩ := Option.bind_eq_some_iff.mp h
  obtain ⟨b, hb, h⟩ := Option.bind_eq_some_iff.mp h
  obtain ⟨rfl, hale⟩ := checkedMul_eq_some.mp ha
  obtain ⟨rfl, hble⟩ := checkedMul_eq_some.mp hb
  obtain ⟨rfl, hle⟩ := checkedAdd_eq_some.mp h
  have hg' := Nat.mul_le_mul_right (entryOverhead + PredictionLayout.fenceGroup S C D) hg
  have hm' := Nat.mul_le_mul_right (entryOverhead + PredictionLayout.fenceMember S C D) hm
  refine ⟨_, Nat.add_le_add hg' hm', ?_⟩
  rw [bytesFor, checkedMul_eq_some.mpr ⟨rfl, hg'.trans hale⟩, Option.bind_some,
    checkedMul_eq_some.mpr ⟨rfl, hm'.trans hble⟩, Option.bind_some]
  exact checkedAdd_eq_some.mpr ⟨rfl, (Nat.add_le_add hg' hm').trans hle⟩

theorem size_insert_le {β : Type} (t : ExtTreeMap ℕ β) (k : ℕ) (v : β) :
    (t.insert k v).size ≤ t.size + 1 := by
  rw [ExtTreeMap.size_insert]
  split_ifs <;> omega

/-- A record adds one group and no more than its members. -/
theorem record_size (fences : TopologyFences) (identity : PredictionIdentity) (snapshot tick : ℕ) :
    (fences.record identity snapshot tick).groups.size ≤ fences.groups.size + 1 ∧
    (fences.record identity snapshot tick).members.size ≤
      fences.members.size + identity.scopes.length := by
  refine ⟨size_insert_le .., ?_⟩
  change (identity.scopes.foldl (recordMember identity.binding) fences.members).size ≤ _
  generalize fences.members = members
  induction identity.scopes generalizing members with
  | nil => exact le_rfl
  | cons scope scopes ih =>
    have hone := size_insert_le members scope.entity.index ⟨scope, identity.binding.sceneRevision,
      if scope.entity.index = identity.binding.owner.owner.index then some identity.binding
      else (members[scope.entity.index]?).bind (·.owner)⟩
    refine (ih (recordMember identity.binding members scope)).trans ?_
    rw [List.length_cons, recordMember]
    omega

end TopologyFences

namespace PredictionManager
variable {W S C D : Type} [Payload S] [Payload C] [Payload D] [PredictionLayout S C D]
  {m m' : PredictionManager S C D} {model : PredictionModel W S C D}

/-- The accounts of a manager are in order. -/
structure Balanced (m : PredictionManager S C D) : Prop where
  groups : ∀ (g : ℕ) (h : GroupHistory S C D), m.groups[g]? = some h → Booked m.limits h
  bytes : ∃ fences, m.topologyFences.bytes S C D = some fences ∧
    m.bytes = total GroupHistory.bytes m.groups + fences
  limit : m.bytes ≤ m.limits.historyBytes
  entities : m.entities = total members m.groups
  few : m.entities ≤ m.limits.totalEntities

theorem Balanced.of_new {connection : ℕ} {limits : PredictionLimits}
    {start : PredictionManager S C D} (hnew : new connection limits = .ok start) :
    Balanced start := by
  unfold new at hnew
  split_ifs at hnew
  cases hnew
  refine ⟨by simp, ⟨0, ?_, by rw [total_empty]⟩, Nat.zero_le _, (total_empty _).symm, Nat.zero_le _⟩
  simp [TopologyFences.bytes, TopologyFences.bytesFor, checkedMul, checkedAdd]

variable {h : GroupHistory S C D} {R α : Type} {group tick : ℕ} {proof : PublishedProof W}
  {binding : PredictionBinding} {retiring : Finset ℕ} {retired : List PredictionIdentity}
  {fences : TopologyFences} {replacements : List (PublishedProof W × PredictionBinding)}
  {error : PredictionError}

/-- A group's bytes and members are among the manager's. -/
theorem Balanced.group_le (hb : Balanced m) {g : ℕ} (hg : m.groups[g]? = some h) :
    h.bytes ≤ m.bytes ∧ members h ≤ m.entities := by
  obtain ⟨fences, -, hbytes⟩ := hb.bytes
  have h₁ := le_total GroupHistory.bytes hg
  have h₂ := le_total members hg
  exact ⟨by omega, hb.entities ▸ h₂⟩

/-! ### Calls on a group -/

theorem withGroup_balanced [BEq S] [BEq D] (model : PredictionModel W S C D)
    {apply : GroupHistory S C D → PredictionWork × Except Halt (GroupHistory S C D × R)}
    (hb : Balanced m)
    (happly : ∀ h h' work value, m.groups[group]? = some h → apply h = (work, .ok (h', value)) →
      h' = h ∨ Touched m model h h') : Balanced (m.withGroup group apply).1 := by
  have hthrough := m.withGroup_through group apply
  generalize m.withGroup group apply = result at hthrough
  cases hthrough with
  | unknown | panic => exact hb
  | settled h work result hg hwork hle =>
    have hbooked := hb.groups group h hg
    -- the group keeps its books and its identity, and the room reserved for it suffices
    have hafter : Booked m.limits (settle h result).1 ∧ (settle h result).1.identity = h.identity ∧
        m.bytes + (settle h result).1.bytes ≤ m.limits.historyBytes + h.bytes := by
      have hsame : Booked m.limits h ∧ h.identity = h.identity ∧
          m.bytes + h.bytes ≤ m.limits.historyBytes + h.bytes :=
        ⟨hbooked, rfl, Nat.add_le_add_right hb.limit _⟩
      rcases settle_cases h result with heq | ⟨reason, heq⟩ | ⟨value, hok⟩
      · rwa [heq]
      · rw [heq]
        exact (Touched.recovered reason : Touched m model h _).booked hbooked hb.limit
      · rw [hok] at hwork
        rcases happly h _ work value hg hwork with heq | htouched
        · rwa [heq]
        · exact htouched.booked hbooked hb.limit
    generalize (settle h result).1 = after at hafter
    obtain ⟨hbooks, hidentity, hroom⟩ := hafter
    obtain ⟨fences, hfences, hbytes⟩ := hb.bytes
    have hreplace := total_replace GroupHistory.bytes hg after
    have hmembers := total_replace members hg after
    have hsame : members after = members h := by rw [members, hidentity, members]
    refine ⟨fun g found hfound => ?_, ⟨fences, hfences, ?_⟩, ?_, ?_, hb.few⟩
    · dsimp only at hfound
      rw [lookup_insert] at hfound
      split_ifs at hfound
      · cases hfound
        exact hbooks
      · exact hb.groups g found hfound
    · dsimp only
      omega
    · dsimp only
      omega
    · dsimp only
      have := hb.entities
      omega

theorem withGroup_ne_panic
    {apply : GroupHistory S C D → PredictionWork × Except Halt (GroupHistory S C D × R)}
    (hb : Balanced m) (happly : ∀ h, Booked m.limits h → (apply h).2 ≠ .error .panic) :
    (m.withGroup group apply).2 ≠ .panic := by
  have hthrough := m.withGroup_through group apply
  generalize m.withGroup group apply = result at hthrough
  cases hthrough with
  | unknown => exact nofun
  | panic h hg hlt => exact absurd (hb.group_le hg).1 (Nat.not_le.mpr hlt)
  | settled h work result hg hwork hle =>
    have hne := happly h (hb.groups group h hg)
    rw [hwork] at hne
    rcases result with (error | reason | _) | ⟨after, value⟩
    · exact nofun
    · exact nofun
    · exact absurd rfl hne
    · exact nofun

/-! ### Entered and dropped groups -/

theorem Decoded.booked (hd : Decoded m proof binding h) : Booked m.limits h := by
  obtain ⟨decoded, bytes, charge, hframe, hcharge, hbytes, hframes⟩ := hd.frames
  refine ⟨fun k frame hk => ?_, ⟨charge, ?_, ?_⟩, ⟨proof.endTick, ?_⟩, ?_⟩
  · rw [hframes, lookup_insert] at hk
    split_ifs at hk
    · cases hk
      exact hframe
    · simp at hk
  · rw [hd.identity]
    exact hcharge
  · rw [hframes, total_insert, erase_of_none (by simp), total_empty]
    exact hbytes
  · rw [hframes]
    exact ExtTreeMap.mem_insert_self
  · rw [hframes]
    refine (TopologyFences.size_insert_le ..).trans ?_
    rw [ExtTreeMap.size_empty]
    omega

theorem enterGroup_balanced (hb : Balanced m)
    (he : m.enterGroup proof binding model = .ok m') : Balanced m' := by
  obtain ⟨hwelcome, h, hdecoded, rfl⟩ := enterGroup_ok he
  have herase := erase_of_none hwelcome.fresh
  have hmembers : members h = proof.manifest.length := by rw [members, hdecoded.identity]
  obtain ⟨fences, hfences, hbytes⟩ := hb.bytes
  refine ⟨fun g found hg => ?_, ⟨fences, hfences, ?_⟩, hdecoded.room, ?_, hwelcome.entities⟩
  · dsimp only at hg
    rw [lookup_insert] at hg
    split_ifs at hg
    · cases hg
      exact hdecoded.booked
    · exact hb.groups g found hg
  · dsimp only
    rw [total_insert, herase]
    omega
  · dsimp only
    rw [total_insert, herase, hmembers, hb.entities, Nat.add_comm]

theorem dropGroup_balanced {removed : Bool} (hb : Balanced m)
    (hd : m.dropGroup group = some (m', removed)) : Balanced m' := by
  rcases dropGroup_some hd with ⟨-, -, rfl⟩ | ⟨h, hg, -, hbytes, hentities, rfl⟩
  · exact hb
  · obtain ⟨fences, hfences, hsum⟩ := hb.bytes
    have htotal := total_erase GroupHistory.bytes hg
    have hmembers := total_erase members hg
    have hlimit := hb.limit
    have hfew := hb.few
    have hall := hb.entities
    have hone : members h = h.identity.scopes.length := rfl
    refine ⟨fun g found hfound => ?_, ⟨fences, hfences, ?_⟩, ?_, ?_, ?_⟩
    · dsimp only at hfound
      rw [lookup_erase] at hfound
      split_ifs at hfound
      exact hb.groups g found hfound
    all_goals
      dsimp only
      omega

theorem dropGroup_ne_none (hb : Balanced m) : m.dropGroup group ≠ none := by
  unfold dropGroup
  cases hg : m.groups[group]? with
  | none => exact nofun
  | some h =>
    obtain ⟨hbytes, hmembers⟩ := hb.group_le hg
    have hmembers : h.identity.scopes.length ≤ m.entities := hmembers
    dsimp only
    rw [checkedSub_eq_some.mpr ⟨hbytes, rfl⟩, Option.bind_some,
      checkedSub_eq_some.mpr ⟨hmembers, rfl⟩]
    exact nofun

/-! ### Replaced groups -/

/-- The groups to retire are there, each once. -/
structure Retiring (m : PredictionManager S C D) (retired : List PredictionIdentity) : Prop where
  found : ∀ identity ∈ retired, ∃ h, m.groups[identity.group]? = some h ∧ h.identity = identity
  distinct : (retired.map (·.group)).Nodup

omit [Payload S] [Payload C] [Payload D] [PredictionLayout S C D] in
theorem checkRetired_ok {seen : Finset ℕ} (h : m.checkRetired seen retired = .ok retiring) :
    Retiring m retired ∧ ∀ identity ∈ retired, identity.group ∉ seen := by
  induction retired generalizing seen with
  | nil => exact ⟨⟨by simp, List.nodup_nil⟩, by simp⟩
  | cons identity retired ih =>
    unfold checkRetired at h
    split at h
    · cases h
    rename_i hnot
    push Not at hnot
    obtain ⟨⟨hfound, hdistinct⟩, hseen⟩ := ih h
    obtain ⟨history, hhistory, heq⟩ := Option.map_eq_some_iff.mp hnot.2
    refine ⟨⟨fun other hother => ?_, ?_⟩, fun other hother => ?_⟩
    · rcases List.mem_cons.mp hother with rfl | hother
      · exact ⟨history, hhistory, heq⟩
      · exact hfound other hother
    · rw [List.map_cons, List.nodup_cons]
      refine ⟨fun hmem => ?_, hdistinct⟩
      obtain ⟨other, hother, hgroup⟩ := List.mem_map.mp hmem
      exact hseen other hother (hgroup ▸ Finset.mem_insert_self _ _)
    · rcases List.mem_cons.mp hother with rfl | hother
      · exact hnot.1
      · exact fun hmem => hseen other hother (Finset.mem_insert_of_mem hmem)

/-- What is left when groups are dropped. -/
structure Dropped (m : PredictionManager S C D) (retired : List PredictionIdentity)
    (dropped : PredictionManager S C D) : Prop where
  balanced : Balanced dropped
  entities : dropped.entities + (retired.map fun identity => identity.scopes.length).sum =
    m.entities
  size : dropped.groups.size + retired.length = m.groups.size
  fences : dropped.topologyFences = m.topologyFences
  limits : dropped.limits = m.limits
  bytes : dropped.bytes ≤ m.bytes
  gone : ∀ g ∈ retired.map (·.group), dropped.groups[g]? = none
  kept : ∀ g ∉ retired.map (·.group), dropped.groups[g]? = m.groups[g]?

/-- **Groups that are there can be dropped.** -/
theorem dropGroups_dropped (hb : Balanced m) (hr : Retiring m retired) :
    ∃ dropped, m.dropGroups retired = some dropped ∧ Dropped m retired dropped := by
  induction retired generalizing m with
  | nil => exact ⟨m, rfl, hb, rfl, rfl, rfl, rfl, le_rfl, by simp, fun _ _ => rfl⟩
  | cons identity retired ih =>
    obtain ⟨h, hg, hidentity⟩ := hr.found identity List.mem_cons_self
    obtain ⟨hfirst, hrest⟩ := List.nodup_cons.mp hr.distinct
    have hne : m.dropGroup identity.group ≠ none := dropGroup_ne_none hb
    obtain ⟨⟨m₁, removed⟩, hdrop⟩ := Option.ne_none_iff_exists'.mp hne
    have hb₁ := dropGroup_balanced hb hdrop
    rcases dropGroup_some hdrop with ⟨hnone, -⟩ | ⟨h', hg', -, hbytes, hentities, rfl⟩
    · rw [hg] at hnone
      cases hnone
    rw [hg, Option.some.injEq] at hg'
    subst hg'
    have hlookup : ∀ g, (m.groups.erase identity.group)[g]? =
        if identity.group = g then none else m.groups[g]? := fun g => lookup_erase ..
    obtain ⟨dropped, hdropped, hd⟩ := ih hb₁ ⟨fun other hother => by
      obtain ⟨found, hfound, heq⟩ := hr.found other (List.mem_cons_of_mem _ hother)
      refine ⟨found, ?_, heq⟩
      dsimp only
      rw [hlookup, if_neg, hfound]
      exact fun hsame => hfirst (List.mem_map.mpr ⟨other, hother, hsame.symm⟩), hrest⟩
    have hsum := hd.entities
    have hsize := hd.size
    have hless := hd.bytes
    have hone := total_erase (fun _ => 1) hg
    rw [total_one, total_one] at hone
    dsimp only at hsum hsize hless
    rw [hidentity] at hsum hentities
    refine ⟨dropped, ?_, hd.balanced, ?_, ?_, hd.fences, hd.limits, by omega, fun g hmem => ?_,
      fun g hmem => ?_⟩
    · rw [dropGroups, hdrop]
      exact hdropped
    · rw [List.map_cons, List.sum_cons]
      omega
    · rw [List.length_cons]
      omega
    · by_cases hlater : g ∈ retired.map (·.group)
      · exact hd.gone g hlater
      · rw [hd.kept g hlater]
        dsimp only
        rw [hlookup, if_pos]
        rw [List.map_cons, List.mem_cons] at hmem
        exact (hmem.resolve_right hlater).symm
    · rw [List.map_cons, List.mem_cons, not_or] at hmem
      rw [hd.kept g hmem.2]
      dsimp only
      rw [hlookup, if_neg (Ne.symm hmem.1)]

omit [Payload S] [Payload C] [Payload D] [PredictionLayout S C D] in
/-- The fences after the retired groups are recorded. -/
theorem recordRetired_some (fences : TopologyFences)
    (hr : ∀ identity ∈ retired, ∃ h, m.groups[identity.group]? = some h ∧ h.identity = identity) :
    ∃ fences', m.recordRetired fences retired = .ok fences' ∧
      fences'.groups.size ≤ fences.groups.size + retired.length ∧
      fences'.members.size ≤
        fences.members.size + (retired.map fun identity => identity.scopes.length).sum := by
  induction retired generalizing fences with
  | nil => exact ⟨fences, rfl, le_rfl, le_rfl⟩
  | cons identity retired ih =>
    obtain ⟨h, hg, -⟩ := hr identity List.mem_cons_self
    obtain ⟨hgroups, hmembers⟩ := fences.record_size identity h.lastSnapshot h.lastCheckpoint
    obtain ⟨fences', hrec, hgroups', hmembers'⟩ :=
      ih (fences.record identity h.lastSnapshot h.lastCheckpoint)
        fun other hother => hr other (List.mem_cons_of_mem _ hother)
    refine ⟨fences', ?_, ?_, ?_⟩
    · rw [recordRetired, hg]
      exact hrec
    · rw [List.length_cons]
      omega
    · rw [List.map_cons, List.sum_cons]
      omega

omit [Payload S] [Payload C] [Payload D] [PredictionLayout S C D] in
/-- The fences after all groups of a manager are recorded. -/
theorem recordGroups_size (m : PredictionManager S C D) (fences : TopologyFences) :
    (m.recordGroups fences).groups.size ≤ fences.groups.size + m.groups.size ∧
    (m.recordGroups fences).members.size ≤ fences.members.size + total members m.groups := by
  have hlist : ∀ (histories : List (GroupHistory S C D)) (fences : TopologyFences),
      (histories.foldl (fun fences history =>
        fences.record history.identity history.lastSnapshot history.lastCheckpoint)
          fences).groups.size ≤
          fences.groups.size + histories.length ∧
      (histories.foldl (fun fences history =>
        fences.record history.identity history.lastSnapshot history.lastCheckpoint)
          fences).members.size ≤
          fences.members.size + (histories.map members).sum := by
    intro histories
    induction histories with
    | nil => exact fun fences => ⟨le_rfl, le_rfl⟩
    | cons h histories ih =>
      intro fences
      obtain ⟨hgroups, hmembers⟩ := fences.record_size h.identity h.lastSnapshot h.lastCheckpoint
      obtain ⟨hgroups', hmembers'⟩ := ih (fences.record h.identity h.lastSnapshot h.lastCheckpoint)
      have hone : members h = h.identity.scopes.length := rfl
      rw [List.foldl_cons, List.length_cons, List.map_cons, List.sum_cons]
      exact ⟨by omega, by omega⟩
  obtain ⟨hgroups, hmembers⟩ := hlist (values m.groups) fences
  have hlength : (values m.groups).length = m.groups.size := by
    rw [values, List.length_map, ExtTreeMap.length_toList]
  have hsum : ((values m.groups).map members).sum = total members m.groups := by
    rw [values, List.map_map]
    rfl
  rw [hlength] at hgroups
  rw [hsum] at hmembers
  exact ⟨hgroups, hmembers⟩

/-- What a replacement has been checked for against the groups there are. -/
structure Cleared (m : PredictionManager S C D) (fences : TopologyFences) (retiring : Finset ℕ)
    (proof : PublishedProof W) (binding : PredictionBinding) : Prop where
  validated : fences.validate proof binding = .ok ()
  fresh : proof.publication.group ∈ retiring ∨ m.groups[proof.publication.group]? = none
  apart : ∀ (g : ℕ) (h : GroupHistory S C D), m.groups[g]? = some h → g ∉ retiring →
    sharesMember h proof.manifest = false

omit [Payload S] [Payload C] [Payload D] [PredictionLayout S C D] in
theorem checkReplacement_ok
    (hc : m.checkReplacement fences tick retiring retired proof binding = .ok ()) :
    Cleared m fences retiring proof binding := by
  unfold checkReplacement at hc
  split at hc
  · cases hc
  rename_i hvalid
  split at hc
  · cases hc
  split at hc
  · cases hc
  rename_i hstay
  split at hc
  · cases hc
  split at hc
  · cases hc
  rename_i hapart
  push Not at hstay
  refine ⟨hvalid, ?_, fun g h hg hnot => ?_⟩
  · by_cases hin : m.groups.contains proof.publication.group
    · exact .inl (hstay hin)
    · right
      rwa [contains_eq_isSome, Bool.not_eq_true, Option.isSome_eq_false_iff,
        Option.isNone_iff_eq_none] at hin
  · rw [List.any_eq_true] at hapart
    push Not at hapart
    refine Bool.eq_false_iff.mpr (hapart (g, h) (List.mem_filter.mpr ⟨?_, decide_eq_true hnot⟩))
    exact ExtTreeMap.mem_toList_iff_getElem?_eq_some.mpr hg

/-- **A planned replacement can be committed**, and keeps the accounts. -/
theorem commitReplacement_balanced {r : Replacement S C D} (hb : Balanced m)
    (hp : Planned m model retired replacements r) :
    ∃ after, m.commitReplacement retired r = some after ∧ Balanced after := by
  obtain ⟨metadata, scratch, fences, staged, hmeasured, hfences, hchecked, hstaged, hle,
      ⟨events, hlimit⟩,
    hafter, hgroups, hbytes⟩ := hp
  obtain ⟨retiring, hretiring⟩ := hmeasured.found
  have hretired := (checkRetired_ok hretiring).1
  obtain ⟨dropped, hdropped, hd⟩ := dropGroups_dropped hb hretired
  obtain ⟨base, hlimits, hempty, hbase, hextended⟩ := stageReplacements_ok hstaged
  have hstagedBytes := hextended.bytes
  have hstagedSize := hextended.size
  have hstagedMembers := hextended.members
  rw [hempty, total_empty] at hstagedBytes hstagedMembers
  rw [hempty, ExtTreeMap.size_empty, Nat.zero_add] at hstagedSize
  rw [Nat.zero_add, ← hmeasured.sum] at hstagedMembers
  -- the new fences cost no more than the scratch reserved for them
  obtain ⟨fences', hrecorded, hgroupsSize, hmembersSize⟩ :=
    recordRetired_some m.topologyFences hretired.found
  rw [hfences, Except.ok.injEq] at hrecorded
  subst hrecorded
  obtain ⟨hgroupsSize', hmembersSize'⟩ := staged.recordGroups_size fences
  rw [← hafter] at hgroupsSize' hmembersSize'
  obtain ⟨new, hnewLe, hnew⟩ : ∃ new ≤ scratch, r.fences.bytes S C D = some new :=
    TopologyFences.bytesFor_le hmeasured.charge (by omega) (by omega)
  obtain ⟨old, hold, hdroppedBytes⟩ := hd.balanced.bytes
  have hsub : checkedSub dropped.bytes old = some (dropped.bytes - old) :=
    checkedSub_eq_some.mpr ⟨by omega, rfl⟩
  refine ⟨_, by
    rw [commitReplacement, hdropped, Option.bind_some, hold, Option.bind_some, hsub,
      Option.bind_some, hnew, Option.map_some], ?_⟩
  -- no staged group has the identifier of one that stays
  have hapart : ∀ g, g ∈ r.staged → dropped.groups[g]? = none := by
    intro g hg
    rw [hgroups] at hg
    obtain ⟨h, hfound⟩ := mem_iff_lookup.mp hg
    obtain ⟨_, entry, hentry, rfl, -⟩ := stageReplacements_entered hstaged hfound
    by_cases hgone : entry.1.publication.group ∈ retired.map (·.group)
    · exact hd.gone _ hgone
    · rw [hd.kept _ hgone]
      exact (checkReplacement_ok (hchecked entry hentry)).fresh.resolve_left (by simpa using hgone)
  have htotal := total_foldl_entries GroupHistory.bytes hapart
  have hmembers := total_foldl_entries members hapart
  have hsum := hd.entities
  have hless := hd.bytes
  have hall := hd.balanced.entities
  have hroom := hmeasured.entities
  have hstagedLimits : staged.limits = m.limits := hextended.limits.trans hlimits
  rw [hstagedLimits] at hlimit
  rw [hgroups] at htotal hmembers
  refine ⟨fun g h hg => ?_, ⟨new, hnew, ?_⟩, ?_, ?_, ?_⟩
  · dsimp only at hg
    rw [lookup_foldl_entries, Option.or_eq_some_iff] at hg
    rcases hg with hg | ⟨-, hg⟩
    · rw [hgroups] at hg
      obtain ⟨m₀, entry, -, -, hlimits₀, hdecoded⟩ := stageReplacements_entered hstaged hg
      dsimp only
      rw [hd.limits, ← hlimits₀]
      exact hdecoded.booked
    · exact hd.balanced.groups g h hg
  · dsimp only
    rw [hgroups, htotal]
    omega
  · dsimp only
    rw [hd.limits]
    omega
  · dsimp only
    rw [hgroups, hmembers]
    omega
  · dsimp only
    rw [hd.limits]
    omega

theorem orHalt_ne_panic {x : Except PredictionError α} : orHalt x ≠ .error .panic := by
  cases x <;> exact nofun

theorem require_ne_panic {cond : Prop} [Decidable cond] :
    require (Halt.error error) cond ≠ .error .panic := by
  unfold require
  split_ifs <;> exact nofun

theorem obtainOr_ne_panic {x : Option α} {a : α} (hx : x = some a) :
    obtainOr Halt.panic x ≠ .error .panic := by
  rw [hx]
  exact nofun

theorem measureReplacement_ne_panic (hb : Balanced m) :
    m.measureReplacement retired replacements ≠ .error .panic := by
  unfold measureReplacement
  refine bind_ne_error require_ne_panic fun _ _ => ?_
  refine bind_ne_error orHalt_ne_panic fun metadata _ => ?_
  refine bind_ne_error orHalt_ne_panic fun _ _ => ?_
  refine bind_ne_error orHalt_ne_panic fun retiring hretiring => ?_
  obtain ⟨dropped, -, hd⟩ := dropGroups_dropped hb (checkRetired_ok (orHalt_eq_ok.mp hretiring)).1
  have hsize := hd.size
  have hentities := hd.entities
  refine bind_ne_error (obtainOr_ne_panic (checkedSub_eq_some.mpr ⟨by omega, rfl⟩))
    fun others _ => ?_
  refine bind_ne_error require_ne_panic fun _ _ => ?_
  refine bind_ne_error orHalt_ne_panic fun added _ => ?_
  refine bind_ne_error (obtainOr_ne_panic (checkedSub_eq_some.mpr ⟨by omega, rfl⟩)) fun kept _ => ?_
  refine bind_ne_error require_ne_panic fun _ _ => ?_
  refine bind_ne_error orHalt_ne_panic fun scratch _ => ?_
  refine bind_ne_error orHalt_ne_panic fun both _ => ?_
  exact bind_ne_error orHalt_ne_panic fun _ _ => nofun

section
variable (hr : ∀ identity ∈ retired, ∃ h, m.groups[identity.group]? = some h ∧
  h.identity = identity)
include hr

omit [Payload S] [Payload C] [Payload D] [PredictionLayout S C D] in
theorem checkSuccessors_ne_panic :
    m.checkSuccessors tick proof binding retired ≠ .error .panic := by
  induction retired with
  | nil => exact nofun
  | cons identity retired ih =>
    obtain ⟨h, hg, -⟩ := hr identity List.mem_cons_self
    unfold checkSuccessors
    rw [hg]
    dsimp only
    split
    · exact nofun
    · exact ih fun other hother => hr other (List.mem_cons_of_mem _ hother)

omit [Payload S] [Payload C] [Payload D] [PredictionLayout S C D] in
theorem checkReplacement_ne_panic :
    m.checkReplacement fences tick retiring retired proof binding ≠ .error .panic := by
  unfold checkReplacement
  split
  · exact nofun
  split
  · exact nofun
  split
  · exact nofun
  split
  · rename_i halt hhalt
    intro hpanic
    cases hpanic
    exact checkSuccessors_ne_panic hr hhalt
  split <;> exact nofun

end

theorem planReplacement_ne_panic (hb : Balanced m) :
    m.planReplacement retired replacements model ≠ .error .panic := by
  unfold planReplacement
  refine bind_ne_error require_ne_panic fun _ _ => ?_
  refine bind_ne_error (measureReplacement_ne_panic hb) fun ⟨metadata, added,
    scratch⟩ hmeasure => ?_
  have hmeasured := measureReplacement_ok hmeasure
  obtain ⟨retiring, hretiring⟩ := hmeasured.found
  have hretired := (checkRetired_ok hretiring).1
  obtain ⟨first, rest, hcons⟩ := List.exists_cons_of_ne_nil hmeasured.nonempty
  have htick : (replacements.head?.map fun entry => entry.1.endTick) = some first.1.endTick := by
    rw [hcons]
    rfl
  refine bind_ne_error (obtainOr_ne_panic htick) fun tick _ => ?_
  obtain ⟨fences, hfences, -, -⟩ := recordRetired_some m.topologyFences hretired.found
  refine bind_ne_error (by rw [hfences]; exact nofun) fun fences _ => ?_
  refine bind_ne_error (loop_ne_error (fun _ _ _ => checkReplacement_ne_panic hretired.found) _)
    fun _ _ => ?_
  refine bind_ne_error orHalt_ne_panic fun staged hstaged => ?_
  refine bind_ne_error require_ne_panic fun _ _ => ?_
  refine bind_ne_error orHalt_ne_panic fun count _ => ?_
  refine bind_ne_error orHalt_ne_panic fun events _ => ?_
  refine bind_ne_error orHalt_ne_panic fun _ _ => ?_
  -- the bytes of the staging manager start with everything there is
  obtain ⟨base, -, hempty, hbase, hextended⟩ := stageReplacements_ok (orHalt_eq_ok.mp hstaged)
  have hbytes := hextended.bytes
  rw [hempty, total_empty] at hbytes
  refine bind_ne_error (obtainOr_ne_panic (a := staged.bytes - m.bytes - metadata - scratch) ?_)
    fun _ _ => nofun
  rw [checkedSub_eq_some.mpr ⟨by omega, rfl⟩, Option.bind_some,
    checkedSub_eq_some.mpr ⟨by omega, rfl⟩, Option.bind_some]
  exact checkedSub_eq_some.mpr ⟨by omega, rfl⟩

theorem replaceGroups_ne_panic (hb : Balanced m) :
    (m.replaceGroups retired replacements model).2 ≠ .panic := by
  have hne : m.planReplacement retired replacements model ≠ .error .panic :=
    planReplacement_ne_panic hb
  unfold replaceGroups
  cases hplan : m.planReplacement retired replacements model with
  | error halt =>
    cases halt with
    | error error => exact nofun
    | recover reason => exact nofun
    | panic => exact absurd hplan hne
  | ok r =>
    obtain ⟨after, hcommit, -⟩ := commitReplacement_balanced hb (planReplacement_ok hplan)
    dsimp only
    rw [hcommit]
    exact nofun

/-- A replacement that fails changes nothing. -/
theorem replaceGroups_err (he : (m.replaceGroups retired replacements model).2 = .err error) :
    (m.replaceGroups retired replacements model).1 = m := by
  unfold replaceGroups at he ⊢
  split at he
  · rfl
  · rfl
  · cases he
  · split at he <;> cases he

/-! ### Any call -/

variable [BEq S] [BEq C] [BEq D]

/-- One call keeps the accounts. -/
theorem balanced_call (hb : Balanced m) (c : Call W S C D) : Balanced (m.call model c).1 := by
  have hpredict : ∀ (group target : ℕ) (input : ReplayInput C) (dependencies : DependencyFrame D),
      Balanced (m.predictInput group target input dependencies model).1 :=
    fun group target input dependencies =>
      withGroup_balanced model hb fun h h' work value _ happly =>
      (predictGroup_ok happly).imp_right fun ha => .appended h' target input dependencies ha
  cases c with
  | beginFrame frame =>
    change Balanced (m.beginFrame frame).1
    unfold beginFrame
    split_ifs
    · exact hb
    · exact ⟨hb.groups, hb.bytes, hb.limit, hb.entities, hb.few⟩
  | initializeGroup proof binding =>
    change Balanced (m.initializeGroup proof binding model).1
    unfold initializeGroup
    split
    · exact hb
    · rename_i after henter
      exact enterGroup_balanced hb henter
  | predict group command dependencies => exact hpredict ..
  | predictSubstitute group target dependencies => exact hpredict ..
  | updateDependencies group tick dependencies =>
    change Balanced (m.updateDependencies group tick dependencies).1
    refine withGroup_balanced model hb fun h h' work value _ happly => ?_
    obtain ⟨-, hupdate⟩ := Prod.mk.inj happly
    exact (updateGroup_ok hupdate).imp_right fun hs => .sampled h' tick dependencies hs
  | reconcile proof binding finalizedThrough =>
    change Balanced (m.reconcile proof binding finalizedThrough model).1
    unfold reconcile
    split
    · exact hb
    · exact withGroup_balanced model hb fun h h' work value _ happly =>
        reconcileGroup_touched happly
  | replaceGroups retired replacements =>
    change Balanced (m.replaceGroups retired replacements model).1
    rcases m.replaceGroups_cases model retired replacements with ⟨hsame, -⟩ | ⟨r, hplan, hcommit⟩
    · rwa [hsame]
    · obtain ⟨after, hafter, hbalanced⟩ := commitReplacement_balanced hb hplan
      rw [hcommit, Option.some.injEq] at hafter
      rwa [hafter]
  | revokeScope scope =>
    change Balanced (m.revokeScope scope)
    have hbytes := total_map GroupHistory.bytes m.groups (fun _ history =>
      if discloses history scope then { history with recovery := some .disclosureRevoked }
        else history)
      fun _ _ => by split_ifs <;> rfl
    have hmembers := total_map members m.groups (fun _ history =>
      if discloses history scope then { history with recovery := some .disclosureRevoked }
        else history)
      fun _ _ => by split_ifs <;> rfl
    refine ⟨fun g h hg => ?_, ?_, hb.limit, hb.entities.trans hmembers.symm, hb.few⟩
    · unfold revokeScope at hg
      dsimp only at hg
      rw [ExtTreeMap.getElem?_map, Option.map_eq_some_iff] at hg
      obtain ⟨before, hbefore, rfl⟩ := hg
      have hbooked := hb.groups g before hbefore
      split_ifs
      · exact ⟨hbooked.charged, hbooked.bytes, hbooked.held, hbooked.size⟩
      · exact hbooked
    · obtain ⟨fences, hfences, hsum⟩ := hb.bytes
      exact ⟨fences, hfences, hsum.trans (congrArg (· + fences) hbytes.symm)⟩
  | removeGroup group =>
    change Balanced (m.removeGroup group).1
    unfold removeGroup
    split
    · exact hb
    · rename_i hdrop
      exact dropGroup_balanced hb hdrop

theorem lift_ne_panic {wrap : α → Value} {answer : Answer PredictionError α}
    (ha : answer ≠ .panic) : lift wrap answer ≠ .panic := by
  cases answer with
  | ok | err => exact nofun
  | panic => exact absurd rfl ha

/-- In a manager with its accounts in order no call panics. -/
theorem call_ne_panic (hb : Balanced m) (c : Call W S C D) : (m.call model c).2 ≠ .panic := by
  have hpredict : ∀ (group target : ℕ) (input : ReplayInput C) (dependencies : DependencyFrame D),
      (m.predictInput group target input dependencies model).2 ≠ .panic :=
    fun group target input dependencies => withGroup_ne_panic hb fun h hbooked =>
      predictGroup_ne_panic hbooked
  cases c with
  | beginFrame frame =>
    have hne : (m.beginFrame frame).2 ≠ .panic := by
      unfold beginFrame
      split_ifs <;> exact nofun
    exact lift_ne_panic hne
  | initializeGroup proof binding =>
    have hne : (m.initializeGroup proof binding model).2 ≠ .panic := by
      unfold initializeGroup
      split <;> exact nofun
    exact lift_ne_panic hne
  | predict group command dependencies =>
    exact lift_ne_panic (hpredict group _ (.command command) dependencies)
  | predictSubstitute group target dependencies =>
    exact lift_ne_panic (hpredict group target .substitute dependencies)
  | updateDependencies group tick dependencies =>
    have hne : (m.updateDependencies group tick dependencies).2 ≠ .panic :=
      withGroup_ne_panic hb fun h hbooked => updateGroup_ne_panic hbooked
    exact lift_ne_panic hne
  | reconcile proof binding finalizedThrough =>
    have hne : (m.reconcile proof binding finalizedThrough model).2 ≠ .panic := by
      unfold reconcile
      split
      · exact nofun
      · exact withGroup_ne_panic hb fun h hbooked => reconcileGroup_ne_panic hbooked
    exact lift_ne_panic hne
  | replaceGroups retired replacements =>
    have hne : (m.replaceGroups retired replacements model).2 ≠ .panic := replaceGroups_ne_panic hb
    exact lift_ne_panic hne
  | revokeScope scope => exact nofun
  | removeGroup group =>
    have hne : (m.removeGroup group).2 ≠ .panic := by
      unfold removeGroup
      split
      · rename_i hnone
        exact absurd hnone (dropGroup_ne_none hb)
      · exact nofun
    exact lift_ne_panic hne

/-! ### Calls that fail -/

/-- The one group a call is about. -/
def callGroup : Call W S C D → Option ℕ
  | .predict group _ _ | .predictSubstitute group _ _ | .updateDependencies group _ _ => some group
  | .reconcile proof _ _ => some proof.publication.group
  | _ => none

/-- Nothing is changed but the work done and, in the group the call is about, the reason for a
recovery. -/
def Unmoved (m : PredictionManager S C D) (group : Option ℕ)
    (m' : PredictionManager S C D) : Prop :=
  ∃ work, m' = { m with work } ∨
    ∃ (g : ℕ) (h : GroupHistory S C D) (reason : RecoveryReason), group = some g ∧
      m.groups[g]? = some h ∧
        m' = { m with work, groups := m.groups.insert g { h with recovery := some reason } }

omit [Payload S] [Payload C] [Payload D] [PredictionLayout S C D] [BEq S] [BEq C] [BEq D] in
theorem withGroup_err
    {apply : GroupHistory S C D → PredictionWork × Except Halt (GroupHistory S C D × R)}
    (he : (m.withGroup group apply).2 = .err error) :
    Unmoved m (some group) (m.withGroup group apply).1 := by
  have hthrough := m.withGroup_through group apply
  generalize m.withGroup group apply = result at hthrough he
  cases hthrough with
  | unknown => exact ⟨m.work, .inl rfl⟩
  | panic => cases he
  | settled h work result hg hwork hle =>
    have hbytes : m.bytes - h.bytes + h.bytes = m.bytes := Nat.sub_add_cancel hle
    rcases result with (error' | reason | _) | ⟨after, value⟩
    · refine ⟨work, .inl ?_⟩
      rw [settle, insert_of_some hg, hbytes]
    · refine ⟨work, .inr ⟨group, h, reason, rfl, hg, ?_⟩⟩
      rw [settle, hbytes]
    · cases he
    · cases he

theorem lift_eq_err {wrap : α → Value} {answer : Answer PredictionError α}
    (h : lift wrap answer = .err error) : answer = .err error := by
  cases answer with
  | ok value => cases h
  | err error' =>
    cases h
    rfl
  | panic => cases h

/-- **A call that fails leaves no trace**, but for the work and a reason for recovery. -/
theorem call_err {c : Call W S C D} (he : (m.call model c).2 = .err error) :
    Unmoved m (callGroup c) (m.call model c).1 := by
  have hsame : ∀ group, Unmoved m group m := fun group => ⟨m.work, .inl rfl⟩
  cases c with
  | beginFrame frame =>
    have he : (m.beginFrame frame).2 = .err error := lift_eq_err he
    change Unmoved m none (m.beginFrame frame).1
    unfold beginFrame at he ⊢
    split_ifs at he ⊢
    exact hsame _
  | initializeGroup proof binding =>
    have he : (m.initializeGroup proof binding model).2 = .err error := lift_eq_err he
    change Unmoved m none (m.initializeGroup proof binding model).1
    unfold initializeGroup at he ⊢
    split at he
    · exact hsame _
    · cases he
  | predict group command dependencies =>
    have he : (m.predict group command dependencies model).2 = .err error := lift_eq_err he
    exact withGroup_err he
  | predictSubstitute group target dependencies =>
    have he : (m.predictSubstitute group target dependencies model).2 = .err error := lift_eq_err he
    exact withGroup_err he
  | updateDependencies group tick dependencies =>
    have he : (m.updateDependencies group tick dependencies).2 = .err error := lift_eq_err he
    exact withGroup_err he
  | reconcile proof binding finalizedThrough =>
    have he : (m.reconcile proof binding finalizedThrough model).2 = .err error := lift_eq_err he
    change Unmoved m (some proof.publication.group)
      (m.reconcile proof binding finalizedThrough model).1
    unfold reconcile at he ⊢
    split at he
    · rename_i hconnection
      rw [if_pos hconnection]
      exact hsame _
    · rename_i hconnection
      rw [if_neg hconnection]
      exact withGroup_err he
  | replaceGroups retired replacements =>
    have he : (m.replaceGroups retired replacements model).2 = .err error := lift_eq_err he
    change Unmoved m none (m.replaceGroups retired replacements model).1
    rw [replaceGroups_err he]
    exact hsame _
  | revokeScope scope => cases he
  | removeGroup group =>
    have he : (m.removeGroup group).2 = .err error := lift_eq_err he
    unfold removeGroup at he
    split at he <;> cases he

/-- **Accounts of a prediction manager.**  In every run, with any model at each call: the accounts
are in order, no subtraction or `expect` of a call fails, and a call that answers an error changes
nothing but the work done and, in the group it is about, the reason for a recovery; a replacement
that fails changes nothing at all. -/
theorem accounts_kept (connection : ℕ) (limits : PredictionLimits) (start : PredictionManager S C D)
    (hnew : new connection limits = .ok start)
    (calls : List (PredictionModel W S C D × Call W S C D)) :
    let m := run (fun m c => (m.call c.1 c.2).1) start calls
    Balanced m ∧ ∀ (model : PredictionModel W S C D) (c : Call W S C D),
      (m.call model c).2 ≠ .panic ∧
      (∀ error, (m.call model c).2 = .err error → Unmoved m (callGroup c) (m.call model c).1) ∧
      ∀ retired replacements error, (m.replaceGroups retired replacements model).2 = .err error →
        (m.replaceGroups retired replacements model).1 = m := by
  intro m
  have hb : Balanced m :=
    run_invariant (I := Balanced) (fun m c hm => balanced_call hm c.2) (Balanced.of_new hnew) calls
  exact ⟨hb, fun model c => ⟨call_ne_panic hb c, fun error he => call_err he,
    fun retired replacements error he => replaceGroups_err he⟩⟩

theorem accounts_kept_walk : ∃ m,
    m = run (fun m c => (m.call c.1 c.2).1) walkStart (walkCalls.map fun c => (walkModel, c)) ∧
    Balanced m ∧ (m.call walkModel (.predict 7 ⟨9⟩ ⟨∅⟩)).2 = .err .wrongTick ∧
    Unmoved m (some 7) (m.call walkModel (.predict 7 ⟨9⟩ ⟨∅⟩)).1 := by
  obtain ⟨hbalanced, hcalls⟩ := accounts_kept 1 .default walkStart new_walkStart
    (walkCalls.map fun c => (walkModel, c))
  have hanswer : ((run (fun m c => (m.call c.1 c.2).1) walkStart
      (walkCalls.map fun c => (walkModel, c))).call walkModel (.predict 7 ⟨9⟩ ⟨∅⟩)).2 =
        .err .wrongTick := by
    decide +kernel
  exact ⟨_, rfl, hbalanced, hanswer, (hcalls walkModel _).2.1 _ hanswer⟩

end PredictionManager
end Net.Prediction
