import Discordium.Net.Prediction.Accounts

/-!
# Net — Prediction — Topology

High-water marks of a manager's topology.  A group's mark is its revision and snapshot while it is
there, and what the fences recorded of it afterwards; a member's mark is its scope, its scene and
the binding it last owned.  No call but `remove_group` loses a mark or lowers one (`marks_call`), so
what is accepted for a group or an entity index never goes back, also after it was retired and comes
back.
-/

namespace Net.Prediction
open Lib
open Std (ExtTreeMap)

/-! ### Marks of members -/

namespace TopologyFences

theorem scopeFollows_refl (scope : ScopeIdentity) : scopeFollows scope scope :=
  ⟨le_rfl, le_rfl, le_rfl⟩

theorem scopeFollows.trans {a b c : ScopeIdentity} (hab : scopeFollows b a)
    (hbc : scopeFollows c b) : scopeFollows c a :=
  ⟨hab.1.trans hbc.1, hab.2.1.trans hbc.2.1, hab.2.2.trans hbc.2.2⟩

theorem bindingFollows_refl (binding : PredictionBinding) : bindingFollows binding binding :=
  ⟨rfl, le_rfl, le_rfl, le_rfl, le_rfl⟩

theorem bindingFollows.trans {a b c : PredictionBinding} (hab : bindingFollows b a)
    (hbc : bindingFollows c b) : bindingFollows c a := by
  obtain ⟨h₁, h₂, h₃, h₄, h₅⟩ := hab
  obtain ⟨k₁, k₂, k₃, k₄, k₅⟩ := hbc
  exact ⟨k₁.trans h₁, h₂.trans k₂, h₃.trans k₃, h₄.trans k₄, h₅.trans k₅⟩

/-- One mark of a member may follow another. -/
def MarkFollows (mark previous : MemberMark) : Prop :=
  scopeFollows mark.scope previous.scope ∧ previous.scene ≤ mark.scene ∧
    ∀ binding ∈ previous.owner, ∃ binding' ∈ mark.owner, bindingFollows binding' binding

theorem MarkFollows.refl (mark : MemberMark) : MarkFollows mark mark :=
  ⟨scopeFollows_refl _, le_rfl, fun binding hb => ⟨binding, hb, bindingFollows_refl _⟩⟩

theorem MarkFollows.trans {a b c : MemberMark} (hab : MarkFollows b a) (hbc : MarkFollows c b) :
    MarkFollows c a := by
  refine ⟨hab.1.trans hbc.1, hab.2.1.trans hbc.2.1, fun binding hbinding => ?_⟩
  obtain ⟨binding', hbinding', hfollows⟩ := hab.2.2 binding hbinding
  obtain ⟨binding'', hbinding'', hfollows'⟩ := hbc.2.2 binding' hbinding'
  exact ⟨binding'', hbinding'', hfollows.trans hfollows'⟩

/-- The mark of a member over what was recorded of its index. -/
def markOf (binding : PredictionBinding) (scope : ScopeIdentity) (previous : Option MemberMark) :
    MemberMark :=
  ⟨scope, binding.sceneRevision,
    if scope.entity.index = binding.owner.owner.index then some binding
      else previous.bind (·.owner)⟩

variable {scope : ScopeIdentity}

/-- A member that may follow what was recorded does so with its own mark. -/
theorem markOf_follows {binding : PredictionBinding} {mark : MemberMark}
    (h : memberFollows binding scope mark) :
    MarkFollows (markOf binding scope (some mark)) mark := by
  refine ⟨h.1, h.2.1, fun previous hprevious => ?_⟩
  unfold markOf
  dsimp only
  split_ifs with howner
  · exact ⟨binding, rfl, h.2.2 howner previous hprevious⟩
  · exact ⟨previous, hprevious, bindingFollows_refl _⟩

/-- Recording a mark again changes nothing. -/
theorem markOf_markOf (binding : PredictionBinding) (scope : ScopeIdentity)
    (previous : Option MemberMark) :
    markOf binding scope (some (markOf binding scope previous)) =
      markOf binding scope previous := by
  simp only [markOf, Option.bind_some]
  split_ifs <;> rfl

/-! ### What is recorded -/

section members
variable {binding : PredictionBinding} {scopes : List ScopeIdentity}
  {members : ExtTreeMap ℕ MemberMark}

theorem recordMember_of_not_mem {i : ℕ} (hi : ∀ scope ∈ scopes, scope.entity.index ≠ i) :
    (scopes.foldl (recordMember binding) members)[i]? = members[i]? := by
  induction scopes generalizing members with
  | nil => rfl
  | cons scope scopes ih =>
    rw [List.foldl_cons, ih fun s hs => hi s (List.mem_cons_of_mem _ hs), recordMember,
      lookup_insert, if_neg (hi scope List.mem_cons_self)]

theorem recordMember_of_mem {scope : ScopeIdentity} (hscope : scope ∈ scopes)
    (hnodup : (scopes.map fun scope => scope.entity.index).Nodup) :
    (scopes.foldl (recordMember binding) members)[scope.entity.index]? =
      some (markOf binding scope (members[scope.entity.index]?)) := by
  induction scopes generalizing members with
  | nil => cases hscope
  | cons first scopes ih =>
    rw [List.map_cons, List.nodup_cons] at hnodup
    rw [List.foldl_cons]
    rcases List.mem_cons.mp hscope with rfl | hscope
    · -- no later member has its index
      rw [recordMember_of_not_mem fun s hs heq => hnodup.1 (List.mem_map.mpr ⟨s, hs, heq⟩),
        recordMember, lookup_insert, if_pos rfl]
      rfl
    · rw [ih hscope hnodup.2, recordMember, lookup_insert, if_neg]
      exact fun heq => hnodup.1 (List.mem_map.mpr ⟨scope, hscope, heq.symm⟩)

end members

variable {S C D : Type}

/-- The fences after a list of groups is recorded. -/
def recordHistories (fences : TopologyFences) (histories : List (GroupHistory S C D)) :
    TopologyFences :=
  histories.foldl (fun fences h => fences.record h.identity h.lastSnapshot h.lastCheckpoint) fences

/-- Two groups have different identifiers and no member in common. -/
def Distinct (h h' : GroupHistory S C D) : Prop :=
  h.identity.group ≠ h'.identity.group ∧
    ∀ a ∈ h.identity.scopes, ∀ b ∈ h'.identity.scopes, a.entity.index ≠ b.entity.index

variable {fences : TopologyFences} {histories : List (GroupHistory S C D)} {h : GroupHistory S C D}

theorem recordHistories_member_of_not_mem
    {i : ℕ} (hi : ∀ h ∈ histories, ∀ scope ∈ h.identity.scopes, scope.entity.index ≠ i) :
    (fences.recordHistories histories).members[i]? = fences.members[i]? := by
  induction histories generalizing fences with
  | nil => rfl
  | cons h histories ih =>
    exact (ih fun h' hh' => hi h' (List.mem_cons_of_mem _ hh')).trans
      (recordMember_of_not_mem (hi h List.mem_cons_self))

theorem recordHistories_member_of_mem (hdistinct : histories.Pairwise Distinct)
    (hnodup : ∀ h ∈ histories, (h.identity.scopes.map fun scope => scope.entity.index).Nodup)
    (hh : h ∈ histories) (hscope : scope ∈ h.identity.scopes) :
    (fences.recordHistories histories).members[scope.entity.index]? =
      some (markOf h.identity.binding scope (fences.members[scope.entity.index]?)) := by
  induction histories generalizing fences with
  | nil => cases hh
  | cons first histories ih =>
    obtain ⟨hfirst, hrest⟩ := List.pairwise_cons.mp hdistinct
    change ((fences.record first.identity first.lastSnapshot first.lastCheckpoint).recordHistories
      histories).members[scope.entity.index]? = _
    rcases List.mem_cons.mp hh with rfl | hh
    · rw [recordHistories_member_of_not_mem fun h' hh' b hb heq =>
        (hfirst h' hh').2 scope hscope b hb heq.symm]
      exact recordMember_of_mem hscope (hnodup h List.mem_cons_self)
    · rw [ih hrest (fun h' hh' => hnodup h' (List.mem_cons_of_mem _ hh')) hh]
      exact congrArg (fun mark => some (markOf h.identity.binding scope mark))
        (recordMember_of_not_mem fun a ha => (hfirst h hh).2 a ha scope hscope)

theorem recordHistories_group_of_not_mem {g : ℕ} (hg : ∀ h ∈ histories, h.identity.group ≠ g) :
    (fences.recordHistories histories).groups[g]? = fences.groups[g]? := by
  induction histories generalizing fences with
  | nil => rfl
  | cons h histories ih =>
    refine (ih fun h' hh' => hg h' (List.mem_cons_of_mem _ hh')).trans ?_
    exact (lookup_insert ..).trans (if_neg (hg h List.mem_cons_self))

theorem recordHistories_group_of_mem
    (hdistinct : histories.Pairwise Distinct) (hh : h ∈ histories) :
    (fences.recordHistories histories).groups[h.identity.group]? =
      some ⟨h.identity.groupRevision, h.lastSnapshot, h.lastCheckpoint⟩ := by
  induction histories generalizing fences with
  | nil => cases hh
  | cons first histories ih =>
    obtain ⟨hfirst, hrest⟩ := List.pairwise_cons.mp hdistinct
    change ((fences.record first.identity first.lastSnapshot first.lastCheckpoint).recordHistories
      histories).groups[h.identity.group]? = _
    rcases List.mem_cons.mp hh with rfl | hh
    · rw [recordHistories_group_of_not_mem fun h' hh' => (hfirst h' hh').1.symm]
      exact (lookup_insert ..).trans (if_pos rfl)
    · exact ih hrest hh

/-- What the fences have let through. -/
theorem validate_ok {W : Type} {proof : PublishedProof W}
    {binding : PredictionBinding} (hv : fences.validate proof binding = .ok ()) :
    (∀ mark, fences.groups[proof.publication.group]? = some mark →
      mark.revision < proof.publication.revision ∧ mark.snapshot < proof.publication.snapshot) ∧
    ∀ scope ∈ proof.manifest, ∀ mark, fences.members[scope.entity.index]? = some mark →
      memberFollows binding scope mark := by
  unfold validate at hv
  dsimp only at hv
  split at hv
  · cases hv
  rename_i hgroup
  split at hv
  · rename_i hmembers
    refine ⟨fun mark hmark => ?_, fun scope hscope mark hmark => ?_⟩
    · rw [hmark] at hgroup
      simp only [Option.any_some, decide_eq_true_eq, not_or, not_le, not_lt] at hgroup
      exact ⟨hgroup.1, hgroup.2.1⟩
    · have := List.all_eq_true.mp hmembers scope hscope
      rw [hmark] at this
      exact of_decide_eq_true this
  · cases hv

end TopologyFences

namespace PredictionManager
open TopologyFences
variable {W S C D : Type} {m m' : PredictionManager S C D}

/-! ### Marks of a manager -/

/-- Groups are under their own identifiers, and no entity index is a member twice. -/
structure Separate (groups : ExtTreeMap ℕ (GroupHistory S C D)) : Prop where
  named : ∀ (g : ℕ) (h : GroupHistory S C D), groups[g]? = some h → h.identity.group = g
  indices : ∀ (g : ℕ) (h : GroupHistory S C D), groups[g]? = some h →
    (h.identity.scopes.map fun scope => scope.entity.index).Nodup
  apart : ∀ (g g' : ℕ) (h h' : GroupHistory S C D), groups[g]? = some h →
    groups[g']? = some h' → g ≠ g' → ∀ a ∈ h.identity.scopes, ∀ b ∈ h'.identity.scopes,
      a.entity.index ≠ b.entity.index

/-- The revision and snapshot of a group, or what the fences recorded of it. -/
def GroupMarked (m : PredictionManager S C D) (g revision snapshot : ℕ) : Prop :=
  (∃ h, m.groups[g]? = some h ∧ h.identity.groupRevision = revision ∧ h.lastSnapshot = snapshot) ∨
    (m.groups[g]? = none ∧
      ∃ mark, m.topologyFences.groups[g]? = some mark ∧ mark.revision = revision ∧
        mark.snapshot = snapshot)

/-- No group has a member of the index. -/
def Absent (groups : ExtTreeMap ℕ (GroupHistory S C D)) (i : ℕ) : Prop :=
  ∀ (g : ℕ) (h : GroupHistory S C D), groups[g]? = some h → ∀ scope ∈ h.identity.scopes,
    scope.entity.index ≠ i

/-- The mark of a member of a group, or what the fences recorded of it. -/
def MemberMarked (m : PredictionManager S C D) (i : ℕ) (mark : MemberMark) : Prop :=
  (∃ (g : ℕ) (h : GroupHistory S C D) (scope : ScopeIdentity), m.groups[g]? = some h ∧
    scope ∈ h.identity.scopes ∧ scope.entity.index = i ∧
    markOf h.identity.binding scope (m.topologyFences.members[i]?) = mark) ∨
  (Absent m.groups i ∧ m.topologyFences.members[i]? = some mark)

/-- No mark is lost or lowered. -/
structure Raised (m m' : PredictionManager S C D) : Prop where
  group : ∀ g revision snapshot, GroupMarked m g revision snapshot → ∃ revision' snapshot',
    revision ≤ revision' ∧ snapshot ≤ snapshot' ∧ GroupMarked m' g revision' snapshot'
  member : ∀ i mark, MemberMarked m i mark → ∃ mark', MarkFollows mark' mark ∧
    MemberMarked m' i mark'

theorem Raised.refl (m : PredictionManager S C D) : Raised m m :=
  ⟨fun _ revision snapshot h => ⟨revision, snapshot, le_rfl, le_rfl, h⟩,
    fun _ mark h => ⟨mark, .refl mark, h⟩⟩

/-! ### Calls that keep the topology -/

/-- The same groups with the same members, none with an older snapshot. -/
structure Steady (m m' : PredictionManager S C D) : Prop where
  fences : m'.topologyFences = m.topologyFences
  before : ∀ (g : ℕ) (h' : GroupHistory S C D), m'.groups[g]? = some h' →
    ∃ h, m.groups[g]? = some h ∧ h'.identity = h.identity
  after : ∀ (g : ℕ) (h : GroupHistory S C D), m.groups[g]? = some h →
    ∃ h', m'.groups[g]? = some h' ∧ h'.identity = h.identity ∧ h.lastSnapshot ≤ h'.lastSnapshot

theorem Steady.refl (m : PredictionManager S C D) : Steady m m :=
  ⟨rfl, fun _ h hg => ⟨h, hg, rfl⟩, fun _ h hg => ⟨h, hg, rfl, le_rfl⟩⟩

theorem Steady.separate (hs : Steady m m') (hm : Separate m.groups) : Separate m'.groups := by
  refine ⟨fun g h' hg => ?_, fun g h' hg => ?_, fun g g' h₁' h₂' hg hg' hne => ?_⟩
  · obtain ⟨h, hfound, heq⟩ := hs.before g h' hg
    exact heq ▸ hm.named g h hfound
  · obtain ⟨h, hfound, heq⟩ := hs.before g h' hg
    exact heq ▸ hm.indices g h hfound
  · obtain ⟨h₁, hfound₁, heq₁⟩ := hs.before g h₁' hg
    obtain ⟨h₂, hfound₂, heq₂⟩ := hs.before g' h₂' hg'
    rw [heq₁, heq₂]
    exact hm.apart g g' h₁ h₂ hfound₁ hfound₂ hne

theorem Steady.raised (hs : Steady m m') : Raised m m' where
  group g revision snapshot hmarked := by
    rcases hmarked with ⟨h, hg, rfl, rfl⟩ | ⟨hnone, mark, hmark, rfl, rfl⟩
    · obtain ⟨h', hg', heq, hle⟩ := hs.after g h hg
      exact ⟨_, _, le_rfl, hle, .inl ⟨h', hg', by rw [heq], rfl⟩⟩
    · refine ⟨_, _, le_rfl, le_rfl, .inr ⟨?_, mark, hs.fences ▸ hmark, rfl, rfl⟩⟩
      refine Option.eq_none_iff_forall_ne_some.mpr fun h' hg' => ?_
      obtain ⟨h, hg, -⟩ := hs.before g h' hg'
      rw [hnone] at hg
      cases hg
  member i mark hmarked := by
    refine ⟨mark, .refl mark, ?_⟩
    rcases hmarked with ⟨g, h, scope, hg, hscope, hi, heq⟩ | ⟨habsent, hmark⟩
    · obtain ⟨h', hg', hidentity, -⟩ := hs.after g h hg
      refine .inl ⟨g, h', scope, hg', hidentity ▸ hscope, hi, ?_⟩
      rw [hidentity, hs.fences]
      exact heq
    · refine .inr ⟨fun g h' hg' scope hscope => ?_, hs.fences ▸ hmark⟩
      obtain ⟨h, hg, hidentity⟩ := hs.before g h' hg'
      exact habsent g h hg scope (hidentity ▸ hscope)

variable {model : PredictionModel W S C D} {h : GroupHistory S C D} {proof : PublishedProof W}
  {groups : ExtTreeMap ℕ (GroupHistory S C D)}
  {replacements : List (PublishedProof W × PredictionBinding)}

/-! ### Members of groups -/

theorem sharesMember_eq_false {manifest : List ScopeIdentity} :
    sharesMember h manifest = false ↔
      ∀ a ∈ h.identity.scopes, ∀ b ∈ manifest, a.entity.index ≠ b.entity.index := by
  simp only [sharesMember, List.any_eq_false, Bool.not_eq_true, decide_eq_false_iff_not, ne_eq]

/-- The groups of retired identities, and what recording them does to the fences. -/
theorem exists_retired {retired : List PredictionIdentity}
    (hr : ∀ identity ∈ retired, ∃ h, m.groups[identity.group]? = some h ∧ h.identity = identity) :
    ∃ histories : List (GroupHistory S C D), histories.map (·.identity) = retired ∧
      (∀ h ∈ histories, m.groups[h.identity.group]? = some h) ∧
      ∀ fences, m.recordRetired fences retired = .ok (fences.recordHistories histories) := by
  induction retired with
  | nil => exact ⟨[], rfl, by simp, fun _ => rfl⟩
  | cons identity retired ih =>
    obtain ⟨h, hg, rfl⟩ := hr identity List.mem_cons_self
    obtain ⟨histories, hmap, hfound, hrecord⟩ :=
      ih fun other hother => hr other (List.mem_cons_of_mem _ hother)
    refine ⟨h :: histories, by rw [List.map_cons, hmap], fun h' hh' => ?_, fun fences => ?_⟩
    · rcases List.mem_cons.mp hh' with rfl | hh'
      · exact hg
      · exact hfound h' hh'
    · rw [recordRetired, hg]
      exact hrecord _

/-- Separate groups are distinct, in any list of them that has none twice. -/
theorem Separate.pairwise (hs : Separate groups) {histories : List (GroupHistory S C D)}
    (hfound : ∀ h ∈ histories, groups[h.identity.group]? = some h)
    (hdistinct : (histories.map (·.identity.group)).Nodup) : histories.Pairwise Distinct := by
  have hne : histories.Pairwise fun h h' => h.identity.group ≠ h'.identity.group :=
    List.pairwise_map.mp hdistinct
  exact hne.imp_of_mem fun {h h'} hh hh' hgroup =>
    ⟨hgroup, hs.apart _ _ h h' (hfound h hh) (hfound h' hh') hgroup⟩

variable [Payload S] [Payload C] [Payload D] [PredictionLayout S C D]

theorem Touched.kept [BEq S] [BEq D] {h' : GroupHistory S C D} (ht : Touched m model h h') :
    h'.identity = h.identity ∧ h.lastSnapshot ≤ h'.lastSnapshot := by
  cases ht with
  | recovered reason => exact ⟨rfl, le_rfl⟩
  | appended _ target input dependencies ha =>
    obtain ⟨_, _, _, _, _, _, _, _, _, _, _, _, hpopped⟩ := ha
    rw [hpopped.rest]
    exact ⟨rfl, le_rfl⟩
  | sampled _ tick dependencies hs =>
    obtain ⟨_, _, _, _, _, _, _, _, rfl⟩ := hs
    exact ⟨rfl, le_rfl⟩
  | agreed _ proof binding frame predicted decoded ha hstate hdependencies hclean hagreed =>
    obtain ⟨_, popped, _, _, hpopped, rfl⟩ := hagreed
    refine ⟨?_, ha.snapshot.le⟩
    dsimp only
    rw [hpopped.rest]
  | replayed _ proof binding frame predicted perFrame decoded ha hper hreserve hreplayed =>
    obtain ⟨_, _, _, published, popped, _, _, _, hpublished, _, hpopped, rfl⟩ := hreplayed
    refine ⟨?_, ha.snapshot.le⟩
    dsimp only
    rw [hpopped.rest]
    dsimp only
    rw [hpublished.rest]

theorem withGroup_steady [BEq S] [BEq D] (model : PredictionModel W S C D) {R : Type} {group : ℕ}
    {apply : GroupHistory S C D → PredictionWork × Except Halt (GroupHistory S C D × R)}
    (happly : ∀ h h' work value, m.groups[group]? = some h → apply h = (work, .ok (h', value)) →
      h' = h ∨ Touched m model h h') : Steady m (m.withGroup group apply).1 := by
  have hthrough := m.withGroup_through group apply
  generalize m.withGroup group apply = result at hthrough
  cases hthrough with
  | unknown | panic => exact .refl m
  | settled h work result hg hwork hle =>
    have hkept : (settle h result).1.identity = h.identity ∧
        h.lastSnapshot ≤ (settle h result).1.lastSnapshot := by
      rcases settle_cases h result with heq | ⟨reason, heq⟩ | ⟨value, hok⟩
      · rw [heq]
        exact ⟨rfl, le_rfl⟩
      · rw [heq]
        exact ⟨rfl, le_rfl⟩
      · rw [hok] at hwork
        rcases happly h _ work value hg hwork with heq | htouched
        · rw [heq]
          exact ⟨rfl, le_rfl⟩
        · exact htouched.kept
    generalize (settle h result).1 = after at hkept
    have hlookup : ∀ g, (m.groups.insert group after)[g]? = if group = g then some after
        else m.groups[g]? :=
      fun g => lookup_insert ..
    refine ⟨rfl, fun g h' hg' => ?_, fun g before hbefore => ?_⟩
    · dsimp only at hg'
      rw [hlookup] at hg'
      split_ifs at hg' with heq
      · cases hg'
        exact ⟨h, heq ▸ hg, hkept.1⟩
      · exact ⟨h', hg', rfl⟩
    · dsimp only
      rw [hlookup]
      split_ifs with heq
      · subst heq
        rw [hg, Option.some.injEq] at hbefore
        subst hbefore
        exact ⟨after, rfl, hkept⟩
      · exact ⟨before, hbefore, rfl, le_rfl⟩

/-! ### A new group -/

theorem enterGroup_separate {binding : PredictionBinding}
    (he : m.enterGroup proof binding model = .ok m') (hm : Separate m.groups) :
    Separate m'.groups := by
  obtain ⟨hwelcome, h, hdecoded, rfl⟩ := enterGroup_ok he
  have hlookup : ∀ g, (m.groups.insert proof.publication.group h)[g]? =
      if proof.publication.group = g then some h else m.groups[g]? := fun g => lookup_insert ..
  have hscopes : h.identity.scopes = proof.manifest := by rw [hdecoded.identity]
  have hapart : ∀ (g : ℕ) (other : GroupHistory S C D), m.groups[g]? = some other →
      ∀ a ∈ other.identity.scopes, ∀ b ∈ h.identity.scopes, a.entity.index ≠ b.entity.index :=
    fun g other hg => hscopes ▸ sharesMember_eq_false.mp (hwelcome.apart g other hg)
  refine ⟨fun g found hg => ?_, fun g found hg => ?_, fun g g' h₁ h₂ hg hg' hne => ?_⟩
  · dsimp only at hg
    rw [hlookup] at hg
    split_ifs at hg with heq
    · cases hg
      rw [hdecoded.identity]
      exact heq
    · exact hm.named g found hg
  · dsimp only at hg
    rw [hlookup] at hg
    split_ifs at hg
    · cases hg
      exact hscopes ▸ proof.indices
    · exact hm.indices g found hg
  · dsimp only at hg hg'
    rw [hlookup] at hg hg'
    split_ifs at hg hg' with heq heq' heq'
    · exact absurd (heq.symm.trans heq') hne
    · cases hg
      exact fun a ha b hb heq => hapart g' h₂ hg' b hb a ha heq.symm
    · cases hg'
      exact hapart g h₁ hg
    · exact hm.apart g g' h₁ h₂ hg hg' hne

theorem enterGroup_raised {binding : PredictionBinding}
    (he : m.enterGroup proof binding model = .ok m') : Raised m m' := by
  obtain ⟨hwelcome, h, hdecoded, rfl⟩ := enterGroup_ok he
  obtain ⟨hgroup, hmember⟩ := validate_ok hwelcome.fences
  have hlookup : ∀ g, (m.groups.insert proof.publication.group h)[g]? =
      if proof.publication.group = g then some h else m.groups[g]? := fun g => lookup_insert ..
  have hold : ∀ (g : ℕ) (found : GroupHistory S C D), m.groups[g]? = some found →
      (m.groups.insert proof.publication.group h)[g]? = some found := by
    intro g found hg
    rw [hlookup, if_neg, hg]
    rintro rfl
    rw [hwelcome.fresh] at hg
    cases hg
  have hnew : (m.groups.insert proof.publication.group h)[proof.publication.group]? = some h :=
    (hlookup _).trans (if_pos rfl)
  refine ⟨fun g revision snapshot hmarked => ?_, fun i mark hmarked => ?_⟩
  · rcases hmarked with ⟨found, hg, rfl, rfl⟩ | ⟨hnone, mark, hmark, rfl, rfl⟩
    · exact ⟨_, _, le_rfl, le_rfl, .inl ⟨found, hold g found hg, rfl, rfl⟩⟩
    · by_cases heq : proof.publication.group = g
      · subst heq
        obtain ⟨hrevision, hsnapshot⟩ := hgroup mark hmark
        exact ⟨_, _, hrevision.le, hsnapshot.le,
          .inl ⟨h, hnew, by rw [hdecoded.identity], hdecoded.snapshot⟩⟩
      · exact ⟨_, _, le_rfl, le_rfl, .inr ⟨(hlookup g).trans ((if_neg heq).trans hnone), mark,
          hmark, rfl, rfl⟩⟩
  · rcases hmarked with ⟨g, found, scope, hg, hscope, hi, heq⟩ | ⟨habsent, hmark⟩
    · exact ⟨mark, .refl mark, .inl ⟨g, found, scope, hold g found hg, hscope, hi, heq⟩⟩
    · by_cases hin : ∃ scope ∈ h.identity.scopes, scope.entity.index = i
      · -- the member comes back, and the fences have let it through
        obtain ⟨scope, hscope, rfl⟩ := hin
        have hfollows := hmember scope (by rwa [hdecoded.identity] at hscope) mark hmark
        refine ⟨_, markOf_follows hfollows, .inl ⟨_, h, scope, hnew, hscope, rfl, ?_⟩⟩
        rw [hmark, hdecoded.identity]
      · push Not at hin
        refine ⟨mark, .refl mark, .inr ⟨fun g found hg => ?_, hmark⟩⟩
        dsimp only at hg
        rw [hlookup] at hg
        split_ifs at hg
        · cases hg
          exact hin
        · exact habsent g found hg

/-! ### Replaced groups -/

omit [Payload S] [Payload C] [Payload D] [PredictionLayout S C D] in
/-- All groups of a map, in order. -/
theorem Separate.all (hs : Separate groups) :
    (∀ h : GroupHistory S C D, h ∈ values groups → groups[h.identity.group]? = some h) ∧
      (values groups).Pairwise Distinct := by
  have hfound : ∀ h : GroupHistory S C D, h ∈ values groups → groups[h.identity.group]? =
      some h := by
    intro h hh
    obtain ⟨g, hg⟩ := mem_values.mp hh
    rw [hs.named g h hg]
    exact hg
  refine ⟨hfound, hs.pairwise hfound ?_⟩
  have hkeys : (values groups).map (·.identity.group) = groups.keys := by
    rw [← ExtTreeMap.map_fst_toList_eq_keys, values, List.map_map]
    refine List.map_congr_left fun entry hentry => hs.named entry.1 entry.2 ?_
    exact ExtTreeMap.mem_toList_iff_getElem?_eq_some.mp hentry
  rw [hkeys]
  exact ExtTreeMap.nodup_keys

/-- A manager whose retired groups have given way to staged ones. -/
structure Rebuilt (m : PredictionManager S C D) (retired : List (GroupHistory S C D))
    (staged : ExtTreeMap ℕ (GroupHistory S C D)) (m' : PredictionManager S C D) : Prop where
  fences : m'.topologyFences = (m.topologyFences.recordHistories retired).recordHistories
    (values staged)
  lookup : ∀ g, m'.groups[g]? = (staged[g]?).or
    (if g ∈ retired.map (·.identity.group) then none else m.groups[g]?)
  found : ∀ h ∈ retired, m.groups[h.identity.group]? = some h
  distinct : (retired.map (·.identity.group)).Nodup
  separate : Separate staged
  fresh : ∀ (g : ℕ) (h : GroupHistory S C D), staged[g]? = some h →
    g ∈ retired.map (·.identity.group) ∨ m.groups[g]? = none
  group : ∀ (g : ℕ) (h : GroupHistory S C D) (mark : GroupMark), staged[g]? = some h →
    (m.topologyFences.recordHistories retired).groups[g]? = some mark →
      mark.revision < h.identity.groupRevision ∧ mark.snapshot < h.lastSnapshot
  member : ∀ (g : ℕ) (h : GroupHistory S C D) (scope : ScopeIdentity) (mark : MemberMark),
    staged[g]? = some h → scope ∈ h.identity.scopes →
    (m.topologyFences.recordHistories retired).members[scope.entity.index]? = some mark →
      memberFollows h.identity.binding scope mark
  apart : ∀ (g g' : ℕ) (h h' : GroupHistory S C D), staged[g]? = some h → m.groups[g']? = some h' →
    g' ∉ retired.map (·.identity.group) →
      ∀ a ∈ h'.identity.scopes, ∀ b ∈ h.identity.scopes, a.entity.index ≠ b.entity.index

section rebuilt
omit [Payload S] [Payload C] [Payload D] [PredictionLayout S C D]
variable {retired : List (GroupHistory S C D)} {staged : ExtTreeMap ℕ (GroupHistory S C D)} {g : ℕ}
  {h : GroupHistory S C D}

section
variable (hr : Rebuilt m retired staged m')
include hr

/-- A group of the rebuilt manager is staged, or stayed. -/
theorem Rebuilt.cases (hg : m'.groups[g]? = some h) :
    staged[g]? = some h ∨ (g ∉ retired.map (·.identity.group) ∧ m.groups[g]? = some h) := by
  rw [hr.lookup, Option.or_eq_some_iff] at hg
  rcases hg with hg | ⟨-, hg⟩
  · exact .inl hg
  · split_ifs at hg with hgone
    exact .inr ⟨hgone, hg⟩

theorem Rebuilt.staged_mem (hg : staged[g]? = some h) : m'.groups[g]? = some h := by
  rw [hr.lookup, hg]
  rfl

/-- A group that stays is still there. -/
theorem Rebuilt.stays (hg : m.groups[g]? = some h) (hnot : g ∉ retired.map (·.identity.group)) :
    m'.groups[g]? = some h := by
  have hnone : staged[g]? = none := by
    refine Option.eq_none_iff_forall_ne_some.mpr fun h' hg' => ?_
    rcases hr.fresh g h' hg' with hin | hnone
    · exact hnot hin
    · rw [hnone] at hg
      cases hg
  rw [hr.lookup, hnone, if_neg hnot, hg]
  rfl

theorem Rebuilt.separate_after (hm : Separate m.groups) : Separate m'.groups := by
  refine ⟨fun g h hg => ?_, fun g h hg => ?_, fun g g' h h' hg hg' hne => ?_⟩
  · rcases hr.cases hg with hg | ⟨-, hg⟩
    · exact hr.separate.named g h hg
    · exact hm.named g h hg
  · rcases hr.cases hg with hg | ⟨-, hg⟩
    · exact hr.separate.indices g h hg
    · exact hm.indices g h hg
  · rcases hr.cases hg with hg | ⟨hnot, hg⟩ <;> rcases hr.cases hg' with hg' | ⟨hnot', hg'⟩
    · exact hr.separate.apart g g' h h' hg hg' hne
    · exact fun a ha b hb heq => hr.apart g g' h h' hg hg' hnot' b hb a ha heq.symm
    · exact hr.apart g' g h' h hg' hg hnot
    · exact hm.apart g g' h h' hg hg' hne

theorem Rebuilt.raised_group (hm : Separate m.groups)
    {revision snapshot : ℕ} (hmarked : GroupMarked m g revision snapshot) :
    ∃ revision' snapshot', revision ≤ revision' ∧ snapshot ≤ snapshot' ∧
      GroupMarked m' g revision' snapshot' := by
  by_cases hstays : ∃ h, m.groups[g]? = some h ∧ g ∉ retired.map (·.identity.group)
  · -- it stays as it is
    obtain ⟨h, hg, hnot⟩ := hstays
    rcases hmarked with ⟨h', hg', rfl, rfl⟩ | ⟨hnone, -⟩
    · exact ⟨_, _, le_rfl, le_rfl, .inl ⟨h', hr.stays hg' hnot, rfl, rfl⟩⟩
    · rw [hnone] at hg
      cases hg
  push Not at hstays
  -- it is retired or was before, and the fences now have its mark
  have hfence : ∃ mark, (m.topologyFences.recordHistories retired).groups[g]? = some mark ∧
      mark.revision = revision ∧ mark.snapshot = snapshot := by
    rcases hmarked with ⟨h, hg, rfl, rfl⟩ | ⟨hnone, mark, hmark, hrevision, hsnapshot⟩
    · obtain ⟨h', hh', hgroup⟩ := List.mem_map.mp (hstays h hg)
      have hsame := hr.found h' hh'
      rw [hgroup, hg, Option.some.injEq] at hsame
      subst hsame
      refine ⟨⟨h.identity.groupRevision, h.lastSnapshot, h.lastCheckpoint⟩, ?_, rfl, rfl⟩
      rw [← hgroup]
      exact recordHistories_group_of_mem (hm.pairwise hr.found hr.distinct) hh'
    · refine ⟨mark, ?_, hrevision, hsnapshot⟩
      rw [recordHistories_group_of_not_mem fun h hh heq => ?_, hmark]
      have hfound := hr.found h hh
      rw [heq, hnone] at hfound
      cases hfound
  obtain ⟨mark, hmark, rfl, rfl⟩ := hfence
  cases hstaged : staged[g]? with
  | some h =>
    obtain ⟨hrevision, hsnapshot⟩ := hr.group g h mark hstaged hmark
    exact ⟨_, _, hrevision.le, hsnapshot.le, .inl ⟨h, hr.staged_mem hstaged, rfl, rfl⟩⟩
  | none =>
    refine ⟨_, _, le_rfl, le_rfl, .inr ⟨?_, mark, ?_, rfl, rfl⟩⟩
    · rw [hr.lookup, hstaged, Option.none_or]
      split_ifs with hgone
      · rfl
      · exact Option.eq_none_iff_forall_ne_some.mpr fun h hg => hgone (hstays h hg)
    · rw [hr.fences, recordHistories_group_of_not_mem fun h hh heq => ?_, hmark]
      have hfound := hr.separate.all.1 h hh
      rw [heq, hstaged] at hfound
      cases hfound

theorem Rebuilt.raised_member (hm : Separate m.groups) {i : ℕ}
    {mark : MemberMark} (hmarked : MemberMarked m i mark) :
    ∃ mark', MarkFollows mark' mark ∧ MemberMarked m' i mark' := by
  have hpairwise := hm.pairwise hr.found hr.distinct
  have hindices : ∀ h ∈ retired, (h.identity.scopes.map fun scope => scope.entity.index).Nodup :=
    fun h hh => hm.indices _ h (hr.found h hh)
  obtain ⟨hvalues, hvaluesPairwise⟩ := hr.separate.all
  by_cases hstays : ∃ (g : ℕ) (h : GroupHistory S C D) (scope : ScopeIdentity),
    m.groups[g]? = some h ∧
      g ∉ retired.map (·.identity.group) ∧ scope ∈ h.identity.scopes ∧ scope.entity.index = i
  · -- the group it is in stays, and nothing is recorded of the index
    obtain ⟨g, h, scope, hg, hnot, hscope, rfl⟩ := hstays
    have hfences : m'.topologyFences.members[scope.entity.index]? =
        m.topologyFences.members[scope.entity.index]? := by
      rw [hr.fences, recordHistories_member_of_not_mem, recordHistories_member_of_not_mem]
      · intro h' hh' b hb
        refine hm.apart _ g h' h (hr.found h' hh') hg ?_ b hb scope hscope
        rintro rfl
        exact hnot (List.mem_map.mpr ⟨h', hh', rfl⟩)
      · exact fun h' hh' b hb heq => hr.apart _ g h' h (hvalues h' hh') hg hnot scope hscope b
          hb heq.symm
    rcases hmarked with ⟨g', h', scope', hg', hscope', hi, rfl⟩ | ⟨habsent, -⟩
    · obtain rfl : g = g' := by
        by_contra hne
        exact hm.apart g g' h h' hg hg' hne scope hscope scope' hscope' hi.symm
      refine ⟨_, .refl _, .inl ⟨g, h', scope', hr.stays hg' hnot, hscope', hi, ?_⟩⟩
      rw [hfences]
    · exact absurd rfl (habsent g h hg scope hscope)
  push Not at hstays
  -- it is retired or was before, and the fences now have its mark
  have hfence : (m.topologyFences.recordHistories retired).members[i]? = some mark := by
    rcases hmarked with ⟨g, h, scope, hg, hscope, rfl, rfl⟩ | ⟨habsent, hmark⟩
    · have hgone : g ∈ retired.map (·.identity.group) := by
        by_contra hnot
        exact hstays g h scope hg hnot hscope rfl
      obtain ⟨h', hh', hgroup⟩ := List.mem_map.mp hgone
      have hsame := hr.found h' hh'
      rw [hgroup, hg, Option.some.injEq] at hsame
      subst hsame
      exact recordHistories_member_of_mem hpairwise hindices hh' hscope
    · rw [recordHistories_member_of_not_mem fun h hh => habsent _ h (hr.found h hh), hmark]
  by_cases hback : ∃ h ∈ values staged, ∃ scope ∈ h.identity.scopes, scope.entity.index = i
  · -- a staged group has it, and the fences have let it through
    obtain ⟨h, hh, scope, hscope, rfl⟩ := hback
    have hfollows := hr.member _ h scope mark (hvalues h hh) hscope hfence
    refine ⟨_, markOf_follows hfollows,
      .inl ⟨_, h, scope, hr.staged_mem (hvalues h hh), hscope, rfl, ?_⟩⟩
    rw [hr.fences, recordHistories_member_of_mem hvaluesPairwise
      (fun h hh => hr.separate.indices _ h (hvalues h hh)) hh hscope, hfence, markOf_markOf]
  · push Not at hback
    refine ⟨mark, .refl mark, .inr ⟨fun g h hg scope hscope heq => ?_, ?_⟩⟩
    · rcases hr.cases hg with hg | ⟨hnot, hg⟩
      · exact hback h (mem_values.mpr ⟨g, hg⟩) scope hscope heq
      · exact hstays g h scope hg hnot hscope heq
    · rw [hr.fences, recordHistories_member_of_not_mem hback, hfence]

end

end rebuilt

theorem stageReplacements_separate {bytes : ℕ} {staged : PredictionManager S C D}
    (hs : m.stageReplacements bytes replacements model = .ok staged) :
    Separate staged.groups := by
  obtain ⟨base, hbase, hloop⟩ := bind_eq_ok.mp hs
  have hempty : base.groups = ∅ := by
    unfold new at hbase
    split_ifs at hbase
    cases hbase
    rfl
  refine loop_rel (R := fun s s' : PredictionManager S C D => Separate s.groups →
    Separate s'.groups)
    (fun _ h => h) (fun hab hbc h => hbc (hab h)) (fun s entry s' hround =>
      enterGroup_separate hround) hloop ?_
  dsimp only
  rw [hempty]
  exact ⟨by simp, by simp, by simp⟩

/-- **What a replacement does to the topology.** -/
theorem replaceGroups_rebuilt {retired : List PredictionIdentity} (hb : Balanced m) :
    (m.replaceGroups retired replacements model).1 = m ∨
      ∃ histories staged,
        Rebuilt m histories staged (m.replaceGroups retired replacements model).1 := by
  rcases m.replaceGroups_cases model retired replacements with ⟨hsame, -⟩ | ⟨r, hplan, hcommit⟩
  · exact .inl hsame
  right
  obtain ⟨metadata, scratch, fences, staged, hmeasured, hfences, hchecked, hstaged, -, -,
      hafter, hgroups,
    -⟩ := hplan
  obtain ⟨retiring, hretiring⟩ := hmeasured.found
  have hretired := (checkRetired_ok hretiring).1
  obtain ⟨dropped, hdropped, hd⟩ := dropGroups_dropped hb hretired
  obtain ⟨histories, rfl, hfound, hrecord⟩ := exists_retired hretired.found
  obtain ⟨dropped', old, new, hdropped', -, -, -, heq⟩ := commitReplacement_some hcommit
  rw [hdropped, Option.some.injEq] at hdropped'
  subst hdropped'
  rw [hrecord, Except.ok.injEq] at hfences
  subst hfences
  have hids : (histories.map (·.identity)).map (·.group) = histories.map (·.identity.group) :=
    List.map_map
  rw [hids] at hchecked
  -- every staged group comes from a proof that was cleared
  have hcleared : ∀ (g : ℕ) (h : GroupHistory S C D), staged.groups[g]? = some h →
      ∃ (proof : PublishedProof W) (binding : PredictionBinding), proof.publication.group = g ∧
        Cleared m (m.topologyFences.recordHistories histories)
        (histories.map (·.identity.group)).toFinset proof binding ∧
        ∃ m₀ : PredictionManager S C D, Decoded m₀ proof binding h := by
    intro g h hg
    obtain ⟨m₀, entry, hentry, hgroup, -, hdecoded⟩ := stageReplacements_entered hstaged hg
    exact ⟨entry.1, entry.2, hgroup, checkReplacement_ok (hchecked entry hentry), m₀, hdecoded⟩
  refine ⟨histories, staged.groups, ?_⟩
  rw [heq]
  refine
    { fences := hafter
      lookup := fun g => ?_
      found := hfound
      distinct := hids ▸ hretired.distinct
      separate := stageReplacements_separate hstaged
      fresh := fun g h hg => ?_
      group := fun g h mark hg hmark => ?_
      member := fun g h scope mark hg hscope hmark => ?_
      apart := fun g g' h h' hg hg' hnot a ha b hb => ?_ }
  · dsimp only
    rw [lookup_foldl_entries, hgroups]
    congr 1
    split_ifs with hgone
    · exact hd.gone g (hids ▸ hgone)
    · exact hd.kept g (hids ▸ hgone)
  · obtain ⟨proof, binding, rfl, hclear, -⟩ := hcleared g h hg
    simpa using hclear.fresh
  · obtain ⟨proof, binding, rfl, hclear, m₀, hdecoded⟩ := hcleared g h hg
    rw [hdecoded.identity, hdecoded.snapshot]
    exact (validate_ok hclear.validated).1 mark hmark
  · obtain ⟨proof, binding, rfl, hclear, m₀, hdecoded⟩ := hcleared g h hg
    rw [hdecoded.identity] at hscope ⊢
    exact (validate_ok hclear.validated).2 scope hscope mark hmark
  · obtain ⟨proof, binding, rfl, hclear, m₀, hdecoded⟩ := hcleared g h hg
    rw [hdecoded.identity] at hb
    exact sharesMember_eq_false.mp (hclear.apart g' h' hg' (by simpa using hnot)) a ha b hb

/-! ### Any call -/

variable [BEq S] [BEq C] [BEq D]

/-- **No call but the removal of a group loses or lowers a mark.** -/
theorem marks_call (hb : Balanced m) (hm : Separate m.groups) (c : Call W S C D)
    (hc : ∀ group, c ≠ .removeGroup group) :
    Separate (m.call model c).1.groups ∧ Raised m (m.call model c).1 := by
  have hsteady : ∀ m', Steady m m' → Separate m'.groups ∧ Raised m m' := fun m' hs =>
    ⟨hs.separate hm, hs.raised⟩
  have hpredict : ∀ (group target : ℕ) (input : ReplayInput C) (dependencies : DependencyFrame D),
      Steady m (m.predictInput group target input dependencies model).1 :=
    fun group target input dependencies => withGroup_steady model fun h h' work value _ happly =>
      (predictGroup_ok happly).imp_right fun ha => .appended h' target input dependencies ha
  cases c with
  | beginFrame frame =>
    refine hsteady (m.beginFrame frame).1 ?_
    unfold beginFrame
    split_ifs
    · exact .refl m
    · exact ⟨rfl, fun _ h hg => ⟨h, hg, rfl⟩, fun _ h hg => ⟨h, hg, rfl, le_rfl⟩⟩
  | initializeGroup proof binding =>
    change Separate (m.initializeGroup proof binding model).1.groups ∧
      Raised m (m.initializeGroup proof binding model).1
    unfold initializeGroup
    split
    · exact ⟨hm, .refl m⟩
    · rename_i after henter
      exact ⟨enterGroup_separate henter hm, enterGroup_raised henter⟩
  | predict group command dependencies =>
    exact hsteady _ (hpredict group _ (.command command) dependencies)
  | predictSubstitute group target dependencies =>
    exact hsteady _ (hpredict group target .substitute dependencies)
  | updateDependencies group tick dependencies =>
    refine hsteady (m.updateDependencies group tick dependencies).1 ?_
    refine withGroup_steady model fun h h' work value _ happly => ?_
    obtain ⟨-, hupdate⟩ := Prod.mk.inj happly
    exact (updateGroup_ok hupdate).imp_right fun hs => .sampled h' tick dependencies hs
  | reconcile proof binding finalizedThrough =>
    refine hsteady (m.reconcile proof binding finalizedThrough model).1 ?_
    unfold reconcile
    split
    · exact .refl m
    · exact withGroup_steady model fun h h' work value _ happly => reconcileGroup_touched happly
  | replaceGroups retired replacements =>
    change Separate (m.replaceGroups retired replacements model).1.groups ∧
      Raised m (m.replaceGroups retired replacements model).1
    have hcases : (m.replaceGroups retired replacements model).1 = m ∨ ∃ histories staged,
        Rebuilt m histories staged (m.replaceGroups retired replacements model).1 :=
          replaceGroups_rebuilt hb
    rcases hcases with hsame | ⟨histories, staged, hrebuilt⟩
    · rw [hsame]
      exact ⟨hm, .refl m⟩
    · exact ⟨hrebuilt.separate_after hm,
        fun _ _ _ hmarked => hrebuilt.raised_group hm hmarked,
        fun _ _ hmarked => hrebuilt.raised_member hm hmarked⟩
  | revokeScope scope =>
    refine hsteady (m.revokeScope scope) ?_
    have hlookup : ∀ g, (m.revokeScope scope).groups[g]? = (m.groups[g]?).map fun h =>
        if discloses h scope then { h with recovery := some .disclosureRevoked } else h :=
      fun g => ExtTreeMap.getElem?_map
    refine ⟨rfl, fun g h' hg' => ?_, fun g h hg => ?_⟩
    · rw [hlookup, Option.map_eq_some_iff] at hg'
      obtain ⟨h, hg, rfl⟩ := hg'
      exact ⟨h, hg, by split_ifs <;> rfl⟩
    · rw [hlookup, hg, Option.map_some]
      split_ifs <;> exact ⟨_, rfl, rfl, le_rfl⟩
  | removeGroup group => exact absurd rfl (hc group)

/-- A run of calls without a removal. -/
theorem marks_run {calls : List (PredictionModel W S C D × Call W S C D)}
    (hkeep : ∀ c ∈ calls, ∀ group, c.2 ≠ .removeGroup group) (hb : Balanced m)
    (hm : Separate m.groups) :
    Balanced (run (fun m c => (m.call c.1 c.2).1) m calls) ∧
      Separate (run (fun m c => (m.call c.1 c.2).1) m calls).groups ∧
      Raised m (run (fun m c => (m.call c.1 c.2).1) m calls) := by
  induction calls generalizing m with
  | nil => exact ⟨hb, hm, .refl m⟩
  | cons c calls ih =>
    have hone : Separate (m.call c.1 c.2).1.groups ∧ Raised m (m.call c.1 c.2).1 :=
      marks_call hb hm c.2 (hkeep c List.mem_cons_self)
    obtain ⟨hb', hm', hraised⟩ := ih (fun c' hc' => hkeep c' (List.mem_cons_of_mem _ hc'))
      (balanced_call hb c.2) hone.1
    refine ⟨hb', hm', fun g revision snapshot hmarked => ?_, fun i mark hmarked => ?_⟩
    · obtain ⟨r₁, s₁, hr₁, hs₁, hmarked₁⟩ := hone.2.group g revision snapshot hmarked
      obtain ⟨r₂, s₂, hr₂, hs₂, hmarked₂⟩ := hraised.group g r₁ s₁ hmarked₁
      exact ⟨r₂, s₂, hr₁.trans hr₂, hs₁.trans hs₂, hmarked₂⟩
    · obtain ⟨mark₁, hfollows₁, hmarked₁⟩ := hone.2.member i mark hmarked
      obtain ⟨mark₂, hfollows₂, hmarked₂⟩ := hraised.member i mark₁ hmarked₁
      exact ⟨mark₂, hfollows₁.trans hfollows₂, hmarked₂⟩

/-- **High-water marks.**  In every run without a removed group, between any two of its states: what
is accepted as the revision and snapshot of a group never goes back; of two scopes of one entity
index the later has no smaller generation, scope or representation and comes from no older scene,
and where the entity owns both groups the later binding has no smaller ownership, stream or teleport
segment.  No entity index is ever a member of two groups. -/
theorem topology_high_water (connection : ℕ) (limits : PredictionLimits)
    (start : PredictionManager S C D) (hnew : new connection limits = .ok start)
    (before later : List (PredictionModel W S C D × Call W S C D))
    (hkeep : ∀ c ∈ before ++ later, ∀ group, c.2 ≠ .removeGroup group) :
    let m := run (fun m c => (m.call c.1 c.2).1) start before
    let m' := run (fun m c => (m.call c.1 c.2).1) m later
    (∀ (g : ℕ) (h h' : GroupHistory S C D), m.groups[g]? = some h → m'.groups[g]? = some h' →
      h.identity.groupRevision ≤ h'.identity.groupRevision ∧ h.lastSnapshot ≤ h'.lastSnapshot) ∧
    (∀ (g g' : ℕ) (h h' : GroupHistory S C D) (scope scope' : ScopeIdentity),
      m.groups[g]? = some h → m'.groups[g']? = some h' → scope ∈ h.identity.scopes →
      scope' ∈ h'.identity.scopes → scope.entity.index = scope'.entity.index →
        scopeFollows scope' scope ∧
        h.identity.binding.sceneRevision ≤ h'.identity.binding.sceneRevision ∧
        (scope.entity.index = h.identity.binding.owner.owner.index →
          scope'.entity.index = h'.identity.binding.owner.owner.index →
            bindingFollows h'.identity.binding h.identity.binding)) ∧
    ∀ (g g' : ℕ) (h h' : GroupHistory S C D) (scope scope' : ScopeIdentity),
      m'.groups[g]? = some h → m'.groups[g']? = some h' → scope ∈ h.identity.scopes →
      scope' ∈ h'.identity.scopes → scope.entity.index = scope'.entity.index → g = g' := by
  intro m m'
  have hstart : Separate start.groups := by
    unfold new at hnew
    split_ifs at hnew
    cases hnew
    exact ⟨by simp, by simp, by simp⟩
  obtain ⟨hb, hm, -⟩ :=
    marks_run (fun c hc => hkeep c (List.mem_append_left _ hc)) (Balanced.of_new hnew) hstart
  obtain ⟨-, hm', hraised⟩ := marks_run (fun c hc => hkeep c (List.mem_append_right _ hc)) hb hm
  have hapart : ∀ (g g' : ℕ) (h h' : GroupHistory S C D) (scope scope' : ScopeIdentity),
      m'.groups[g]? = some h → m'.groups[g']? = some h' → scope ∈ h.identity.scopes →
      scope' ∈ h'.identity.scopes → scope.entity.index = scope'.entity.index → g = g' := by
    intro g g' h h' scope scope' hg hg' hscope hscope' hindex
    by_contra hne
    exact hm'.apart g g' h h' hg hg' hne scope hscope scope' hscope' hindex
  refine ⟨fun g h h' hg hg' => ?_, fun g g' h h' scope scope' hg hg' hscope hscope' hindex =>
    ?_, hapart⟩
  · obtain ⟨revision, snapshot, hrevision, hsnapshot, hmarked⟩ :=
      hraised.group g _ _ (.inl ⟨h, hg, rfl, rfl⟩)
    rcases hmarked with ⟨found, hfound, rfl, rfl⟩ | ⟨hnone, -⟩
    · rw [hg', Option.some.injEq] at hfound
      subst hfound
      exact ⟨hrevision, hsnapshot⟩
    · rw [hg'] at hnone
      cases hnone
  · obtain ⟨mark, ⟨hscopes, hscene, howner⟩, hmarked⟩ :=
      hraised.member _ _ (.inl ⟨g, h, scope, hg, hscope, hindex, rfl⟩)
    rcases hmarked with ⟨g₂, h₂, scope₂, hg₂, hscope₂, hindex₂, rfl⟩ | ⟨habsent, -⟩
    · -- the mark is that of the one group the index is in
      obtain rfl := hapart g₂ g' h₂ h' scope₂ scope' hg₂ hg' hscope₂ hscope' hindex₂
      rw [hg', Option.some.injEq] at hg₂
      subst hg₂
      obtain rfl := List.inj_on_of_nodup_map (hm'.indices _ _ hg') hscope₂ hscope' hindex₂
      refine ⟨hscopes, hscene, fun hown hown' => ?_⟩
      obtain ⟨binding, hbinding, hfollows⟩ := howner h.identity.binding (if_pos hown)
      rw [markOf, if_pos hown'] at hbinding
      cases hbinding
      exact hfollows
    · exact absurd rfl (habsent g' h' hg' scope' hscope')

/-- The walker's group is replaced by a later revision of it. -/
def walkReplacement : List (PredictionModel Unit Walk Walk Walk × Call Unit Walk Walk Walk) :=
  [(walkModel,
    .replaceGroups [⟨walkBinding, 7, 1, (walkProof 1 1 1).manifest⟩]
    [(walkProof 2 20 3, walkBinding)])]

theorem topology_high_water_walk : ∃ m m' h h',
    m = run (fun m c => (m.call c.1 c.2).1) walkStart (walkCalls.map fun c => (walkModel, c)) ∧
    m' = run (fun m c => (m.call c.1 c.2).1) m walkReplacement ∧
    m.groups[7]? = some h ∧ m'.groups[7]? = some h' ∧ h.identity.groupRevision = 1 ∧
    h'.identity.groupRevision = 2 ∧ h.lastSnapshot ≤ h'.lastSnapshot := by
  have hbefore : ((run (fun m c => (m.call c.1 c.2).1) walkStart
      (walkCalls.map fun c => (walkModel, c))).groups[7]?).map (·.identity.groupRevision) =
        some 1 := by
    decide +kernel
  have hlater : ((run (fun m c => (m.call c.1 c.2).1) (run (fun m c => (m.call c.1 c.2).1) walkStart
      (walkCalls.map fun c => (walkModel, c))) walkReplacement).groups[7]?).map
        (·.identity.groupRevision) = some 2 := by
    decide +kernel
  obtain ⟨h, hg, hrevision⟩ := Option.map_eq_some_iff.mp hbefore
  obtain ⟨h', hg', hrevision'⟩ := Option.map_eq_some_iff.mp hlater
  have hmarks := (topology_high_water 1 .default walkStart new_walkStart
    (walkCalls.map fun c => (walkModel, c)) walkReplacement (by
      simp [walkCalls, walkReplacement])).1 7 h h' hg hg'
  exact ⟨_, _, h, h', rfl, rfl, hg, hg', hrevision, hrevision', hmarks.2⟩

end PredictionManager
end Net.Prediction
