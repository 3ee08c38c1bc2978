import Discordium.Net.Prediction.Steps

/-!
# Net — Prediction — Calls

What one call can do to a manager, from what it can do to a group: every group after a call was
there before, or is one that the call touched (`Touched`), or is a new one decoded from a proof
(`Entered`).
-/

namespace Net.Prediction
open Lib
open Std (ExtTreeMap)

namespace PredictionManager
variable {W S C D : Type} [Payload S] [Payload C] [Payload D] [PredictionLayout S C D]
  {m m' : PredictionManager S C D} {model : PredictionModel W S C D}

/-! ### One group -/

/-- What a call does to a group it finds. -/
inductive Touched [BEq S] [BEq D] (m : PredictionManager S C D) (model : PredictionModel W S C D)
    (h : GroupHistory S C D) : GroupHistory S C D → Prop where
  | recovered (reason : RecoveryReason) : Touched m model h { h with recovery := some reason }
  | appended (h' : GroupHistory S C D) (target : ℕ) (input : ReplayInput C)
      (dependencies : DependencyFrame D) (ha : Appended m model h target input dependencies h') :
      Touched m model h h'
  | sampled (h' : GroupHistory S C D) (tick : ℕ) (dependencies : DependencyFrame D)
      (hs : Sampled m h tick dependencies h') : Touched m model h h'
  | agreed (h' : GroupHistory S C D) (proof : PublishedProof W) (binding : PredictionBinding)
      (frame : HistoryFrame S C D) (predicted : ℕ) (decoded : DecodedPrediction S D)
      (ha : Admitted m model h proof binding frame predicted decoded)
      (hstate : (decoded.state == frame.state) = true)
      (hdependencies : (decoded.dependencies == frame.dependencies) = true)
        (hclean : h.dirtyFrom = none)
      (hagreed : Agreed h proof frame decoded h') : Touched m model h h'
  | replayed (h' : GroupHistory S C D) (proof : PublishedProof W) (binding : PredictionBinding)
      (frame : HistoryFrame S C D) (predicted perFrame : ℕ) (decoded : DecodedPrediction S D)
      (ha : Admitted m model h proof binding frame predicted decoded)
      (hper : m.limits.checkpointBytes +
        m.limits.eventsPerTick * (entryOverhead + PredictionLayout.actionKey S C D) ≤ perFrame)
      (hreserve : m.bytes + ((predicted - proof.endTick + 1) * perFrame +
        m.limits.dependencyBytes) ≤
        m.limits.historyBytes)
      (hreplayed : Replayed m model h proof predicted decoded h') : Touched m model h h'

/-- What a call on a group does to the manager. -/
inductive Through {R : Type} (m : PredictionManager S C D) (group : ℕ)
    (apply : GroupHistory S C D → PredictionWork × Except Halt (GroupHistory S C D × R)) :
    PredictionManager S C D × Answer PredictionError R → Prop where
  | unknown (hg : m.groups[group]? = none) : Through m group apply (m, .err .unknownGroup)
  | panic (h : GroupHistory S C D) (hg : m.groups[group]? = some h) (hlt : m.bytes < h.bytes) :
      Through m group apply (m, .panic)
  | settled (h : GroupHistory S C D) (work : PredictionWork)
      (result : Except Halt (GroupHistory S C D × R)) (hg : m.groups[group]? = some h)
      (happly : apply h = (work, result)) (hle : h.bytes ≤ m.bytes) :
      Through m group apply
        ({ m with
            work
            groups := m.groups.insert group (settle h result).1
            bytes := m.bytes - h.bytes + (settle h result).1.bytes }, (settle h result).2)

variable {R : Type} {group g bytes finalizedThrough : ℕ} {h' h : GroupHistory S C D}
  {proof : PublishedProof W} {binding : PredictionBinding}
  {replacements : List (PublishedProof W × PredictionBinding)} {staged : PredictionManager S C D}
  {removed : Bool} {retired : List PredictionIdentity} {r : Replacement S C D}

omit [Payload S] [Payload C] [Payload D] [PredictionLayout S C D] in
theorem withGroup_through (m : PredictionManager S C D) (group : ℕ)
    (apply : GroupHistory S C D → PredictionWork × Except Halt (GroupHistory S C D × R)) :
    Through m group apply (m.withGroup group apply) := by
  unfold withGroup
  cases hg : m.groups[group]? with
  | none => exact .unknown hg
  | some h =>
    dsimp only
    cases hsub : checkedSub m.bytes h.bytes with
    | none => exact .panic h hg (checkedSub_eq_none.mp hsub)
    | some rest =>
      obtain ⟨hle, rfl⟩ := checkedSub_eq_some.mp hsub
      exact .settled h _ _ hg rfl hle

omit [Payload S] [Payload C] [Payload D] [PredictionLayout S C D] in
/-- The history a call on a group leaves. -/
theorem settle_cases (h : GroupHistory S C D) (result : Except Halt (GroupHistory S C D × R)) :
    (settle h result).1 = h ∨
      (∃ reason, (settle h result).1 = { h with recovery := some reason }) ∨
      ∃ value, result = .ok ((settle h result).1, value) := by
  rcases result with (error | reason | _) | ⟨after, value⟩
  · exact .inl rfl
  · exact .inr (.inl ⟨reason, rfl⟩)
  · exact .inl rfl
  · exact .inr (.inr ⟨value, rfl⟩)

/-- The groups after a call on one group. -/
theorem withGroup_groups [BEq S] [BEq D]
    {apply : GroupHistory S C D → PredictionWork × Except Halt (GroupHistory S C D × R)}
    (happly : ∀ h h' work value, m.groups[group]? = some h → apply h = (work, .ok (h', value)) →
      h' = h ∨ Touched m model h h')
    (hg : (m.withGroup group apply).1.groups[g]? = some h') :
    m.groups[g]? = some h' ∨ ∃ h, m.groups[g]? = some h ∧ Touched m model h h' := by
  have hthrough := m.withGroup_through group apply
  generalize m.withGroup group apply = result at hthrough hg
  cases hthrough with
  | unknown | panic => exact .inl hg
  | settled h work result hfound hwork hle =>
    dsimp only at hg
    rw [lookup_insert] at hg
    split_ifs at hg with heq
    · subst heq
      cases hg
      rcases settle_cases h result with hsame | ⟨reason, hrecovered⟩ | ⟨value, hok⟩
      · exact .inl (hsame.symm ▸ hfound)
      · exact .inr ⟨h, hfound, hrecovered ▸ .recovered reason⟩
      · rw [hok] at hwork
        rcases happly h _ work value hfound hwork with hsame | htouched
        · exact .inl (hsame.symm ▸ hfound)
        · exact .inr ⟨h, hfound, htouched⟩
    · exact .inl hg

/-! ### New groups -/

/-- A group decoded from a proof. -/
structure Decoded (m : PredictionManager S C D) (proof : PublishedProof W)
    (binding : PredictionBinding) (h : GroupHistory S C D) : Prop where
  identity : h.identity = ⟨binding, proof.publication.group, proof.publication.revision,
    proof.manifest⟩
  snapshot : h.lastSnapshot = proof.publication.snapshot
  checkpoint : h.lastCheckpoint = proof.endTick
  frames : ∃ (decoded : DecodedPrediction S D) (bytes charge : ℕ),
    framePartsBytes decoded.state (none : Option (ReplayInput C)) decoded.dependencies ∅ =
      .ok bytes ∧
    identityBytes S C D proof.manifest.length = some charge ∧ h.bytes = charge + bytes ∧
    h.frames = (∅ : ExtTreeMap ℕ (HistoryFrame S C D)).insert proof.endTick
      (checkpointFrame decoded bytes)
  room : m.bytes + h.bytes ≤ m.limits.historyBytes

theorem decodeHistory_ok
    (hd : m.decodeHistory proof binding model = .ok h) : Decoded m proof binding h := by
  obtain ⟨_, -, hd⟩ := bind_eq_ok.mp hd
  obtain ⟨_, -, hd⟩ := bind_eq_ok.mp hd
  obtain ⟨decoded, -, hd⟩ := bind_eq_ok.mp hd
  obtain ⟨_, -, hd⟩ := bind_eq_ok.mp hd
  obtain ⟨_, -, hd⟩ := bind_eq_ok.mp hd
  obtain ⟨frameBytes, hframe, hd⟩ := bind_eq_ok.mp hd
  obtain ⟨bytes, hbytes, hd⟩ := bind_eq_ok.mp hd
  obtain ⟨_, hreserve, rfl⟩ := map_eq_ok.mp hd
  obtain ⟨charge, hcharge, hsum⟩ := Option.bind_eq_some_iff.mp (orCapacity_eq_ok.mp hbytes)
  exact ⟨rfl, rfl, rfl, ⟨decoded, frameBytes, charge, hframe, hcharge,
    (checkedAdd_eq_some.mp hsum).1, rfl⟩, (reserve_eq_ok.mp hreserve).1⟩

/-- A group decoded from one of some proofs, by a manager with the same limits. -/
def Entered (limits : PredictionLimits) (entries : List (PublishedProof W × PredictionBinding))
    (g : ℕ) (h : GroupHistory S C D) : Prop :=
  ∃ (m : PredictionManager S C D) (entry : PublishedProof W × PredictionBinding), entry ∈ entries ∧
    entry.1.publication.group = g ∧ m.limits = limits ∧ Decoded m entry.1 entry.2 h

/-- A proof and a binding that a new group may come from. -/
structure Welcomed (m : PredictionManager S C D) (proof : PublishedProof W)
    (binding : PredictionBinding) : Prop where
  fresh : m.groups[proof.publication.group]? = none
  fences : m.topologyFences.validate proof binding = .ok ()
  owner : ∃ scope ∈ proof.manifest, scope.entity = binding.owner.owner
  entities : m.entities + proof.manifest.length ≤ m.limits.totalEntities
  apart : ∀ (g : ℕ) (h : GroupHistory S C D), m.groups[g]? = some h →
    sharesMember h proof.manifest = false

omit [Payload S] [Payload C] [Payload D] [PredictionLayout S C D] in
theorem admitGroup_ok (ha : m.admitGroup proof binding = .ok ()) : Welcomed m proof binding := by
  unfold admitGroup at ha
  split at ha
  · cases ha
  rename_i hfresh
  split at ha
  · cases ha
  rename_i hfences
  split at ha
  · cases ha
  rename_i hidentity
  split at ha
  · cases ha
  rename_i hroom
  split at ha
  · cases ha
  rename_i hapart
  push Not at hidentity hroom
  have howner := hidentity.2.2.2.2.2
  rw [List.any_eq_true] at howner
  obtain ⟨scope, hscope, heq⟩ := howner
  exact
    { fresh := by
        rwa [contains_eq_isSome, Bool.not_eq_true, Option.isSome_eq_false_iff,
          Option.isNone_iff_eq_none]
          at hfresh
      fences := hfences
      owner := ⟨scope, hscope, of_decide_eq_true heq⟩
      entities := (checkedAdd_any_le.mp hroom.2.2).1
      apart := fun g h hg => by
        rw [List.any_eq_true] at hapart
        push Not at hapart
        exact Bool.eq_false_iff.mpr (hapart h (mem_values.mpr ⟨g, hg⟩)) }

theorem enterGroup_ok (he : m.enterGroup proof binding model = .ok m') :
    Welcomed m proof binding ∧ ∃ h, Decoded m proof binding h ∧
      m' = { m with
        groups := m.groups.insert proof.publication.group h
        bytes := m.bytes + h.bytes
        entities := m.entities + proof.manifest.length } := by
  obtain ⟨_, hadmitted, he⟩ := bind_eq_ok.mp he
  obtain ⟨h, hdecode, rfl⟩ := map_eq_ok.mp he
  exact ⟨admitGroup_ok hadmitted, h, decodeHistory_ok hdecode, rfl⟩

/-- The members of a group. -/
def members (h : GroupHistory S C D) : ℕ := h.identity.scopes.length

/-- A manager with more groups, decoded one after the other. -/
structure Extended (s : PredictionManager S C D)
    (entries : List (PublishedProof W × PredictionBinding))
    (s' : PredictionManager S C D) : Prop where
  limits : s'.limits = s.limits
  groups : ∀ (g : ℕ) (h : GroupHistory S C D), s'.groups[g]? = some h →
    s.groups[g]? = some h ∨ Entered s.limits entries g h
  bytes : s'.bytes + total GroupHistory.bytes s.groups =
    s.bytes + total GroupHistory.bytes s'.groups
  size : s'.groups.size = s.groups.size + entries.length
  members : total members s'.groups =
    total members s.groups + (entries.map fun entry => entry.1.manifest.length).sum

theorem loop_extended {s s' : PredictionManager S C D}
    {entries : List (PublishedProof W × PredictionBinding)}
    (hloop : loop (fun s entry => enterGroup s entry.1 entry.2 model) s entries = .ok s') :
    Extended s entries s' := by
  induction entries generalizing s with
  | nil =>
    cases hloop
    exact ⟨rfl, fun g h hg => .inl hg, rfl, rfl, rfl⟩
  | cons entry entries ih =>
    obtain ⟨s₁, hfirst, hloop⟩ := bind_eq_ok.mp hloop
    obtain ⟨hwelcome, h, hdecoded, rfl⟩ := enterGroup_ok hfirst
    obtain ⟨hlimits, hgroups, hbytes, hsize, hmembers⟩ := ih hloop
    have herase := erase_of_none hwelcome.fresh
    have hone : members h = entry.1.manifest.length := by rw [members, hdecoded.identity]
    dsimp only at hlimits hgroups hbytes hsize hmembers
    rw [total_insert, herase] at hbytes hmembers
    rw [← total_one, ← total_one, total_insert, herase, total_one, total_one] at hsize
    refine ⟨hlimits, fun g found hg => ?_, by omega, ?_, ?_⟩
    · rcases hgroups g found hg with hg | ⟨m₀, other, hother, hrest⟩
      · rw [lookup_insert] at hg
        split_ifs at hg with heq
        · cases hg
          exact .inr ⟨s, entry, List.mem_cons_self, heq, rfl, hdecoded⟩
        · exact .inl hg
      · exact .inr ⟨m₀, other, List.mem_cons_of_mem _ hother, hrest⟩
    · rw [List.length_cons]
      omega
    · rw [List.map_cons, List.sum_cons]
      omega

theorem stageReplacements_ok (hs : m.stageReplacements bytes replacements model = .ok staged) :
    ∃ base : PredictionManager S C D, base.limits = m.limits ∧ base.groups = ∅ ∧
      base.bytes = bytes ∧ Extended base replacements staged := by
  obtain ⟨base, hbase, hloop⟩ := bind_eq_ok.mp hs
  have hstart : base.limits = m.limits ∧ base.groups = ∅ := by
    unfold new at hbase
    split_ifs at hbase
    cases hbase
    exact ⟨rfl, rfl⟩
  exact ⟨{ base with bytes }, hstart.1, hstart.2, rfl, loop_extended hloop⟩

/-- Every staged group comes from one of the replacements. -/
theorem stageReplacements_entered (hs : m.stageReplacements bytes replacements model = .ok staged)
    (hg : staged.groups[g]? = some h) : Entered m.limits replacements g h := by
  obtain ⟨base, hlimits, hempty, -, hextended⟩ := stageReplacements_ok hs
  rcases hextended.groups g h hg with hbase | hentered
  · simp [hempty] at hbase
  · exact hlimits ▸ hentered

/-! ### Dropped groups -/

omit [Payload S] [Payload C] [Payload D] [PredictionLayout S C D] in
theorem dropGroup_some (hd : m.dropGroup group = some (m', removed)) :
    (m.groups[group]? = none ∧ removed = false ∧ m' = m) ∨
    ∃ h, m.groups[group]? = some h ∧ removed = true ∧ h.bytes ≤ m.bytes ∧
      h.identity.scopes.length ≤ m.entities ∧
      m' = { m with
        groups := m.groups.erase group
        bytes := m.bytes - h.bytes
        entities := m.entities - h.identity.scopes.length } := by
  unfold dropGroup at hd
  cases hg : m.groups[group]? with
  | none =>
    rw [hg] at hd
    cases hd
    exact .inl ⟨rfl, rfl, rfl⟩
  | some h =>
    rw [hg] at hd
    obtain ⟨bytes, hbytes, hd⟩ := Option.bind_eq_some_iff.mp hd
    obtain ⟨entities, hentities, heq⟩ := Option.map_eq_some_iff.mp hd
    cases heq
    obtain ⟨hle, rfl⟩ := checkedSub_eq_some.mp hbytes
    obtain ⟨hle', rfl⟩ := checkedSub_eq_some.mp hentities
    exact .inr ⟨h, rfl, rfl, hle, hle', rfl⟩

omit [Payload S] [Payload C] [Payload D] [PredictionLayout S C D] in
theorem dropGroup_groups (hd : m.dropGroup group = some (m', removed))
    (hg : m'.groups[g]? = some h) : m.groups[g]? = some h := by
  rcases dropGroup_some hd with ⟨-, -, rfl⟩ | ⟨h', -, -, -, -, rfl⟩
  · exact hg
  · dsimp only at hg
    rw [lookup_erase] at hg
    split_ifs at hg
    exact hg

omit [Payload S] [Payload C] [Payload D] [PredictionLayout S C D] in
theorem dropGroups_groups (hd : m.dropGroups retired = some m') (hg : m'.groups[g]? = some h) :
    m.groups[g]? = some h := by
  induction retired generalizing m with
  | nil =>
    cases hd
    exact hg
  | cons identity retired ih =>
    obtain ⟨⟨m₁, removed⟩, hfirst, hd⟩ := Option.bind_eq_some_iff.mp hd
    exact dropGroup_groups hfirst (ih hd)

/-! ### Replaced groups -/

/-- What the sizes of a replacement have been checked for. -/
structure Measured (m : PredictionManager S C D) (retired : List PredictionIdentity)
    (replacements : List (PublishedProof W × PredictionBinding))
    (metadata added scratch : ℕ) : Prop where
  nonempty : replacements ≠ []
  found : ∃ retiring, m.checkRetired ∅ retired = .ok retiring
  count : retired.length ≤ m.groups.size ∧
    m.groups.size - retired.length + replacements.length ≤ m.limits.groups
  sum : added = (replacements.map fun entry => entry.1.manifest.length).sum
  entities : (retired.map fun identity => identity.scopes.length).sum ≤ m.entities ∧
    m.entities - (retired.map fun identity => identity.scopes.length).sum + added ≤
      m.limits.totalEntities
  charge : TopologyFences.bytesFor S C D
    (m.topologyFences.groups.size + retired.length + replacements.length)
    (m.topologyFences.members.size +
      (retired.map fun identity => identity.scopes.length).sum + added) =
      some scratch
  room : m.bytes + (metadata + scratch) ≤ m.limits.historyBytes

theorem orHalt_eq_ok {α : Type} {x : Except PredictionError α} {a : α} :
    orHalt x = .ok a ↔ x = .ok a := by
  cases x <;> simp [orHalt]

theorem checkedSum_eq_some {count n : ℕ} {ns : List ℕ} (h : checkedSum count ns = some n) :
    n = count + ns.sum := by
  induction ns generalizing count with
  | nil =>
    cases h
    rfl
  | cons a ns ih =>
    obtain ⟨c, hc, h⟩ := Option.bind_eq_some_iff.mp h
    rw [ih h, (checkedAdd_eq_some.mp hc).1, List.sum_cons, Nat.add_assoc]

omit [Payload S] [Payload C] [Payload D] in
theorem measureReplacement_ok {metadata added scratch : ℕ}
    (h : m.measureReplacement retired replacements = .ok (metadata, added, scratch)) :
    Measured m retired replacements metadata added scratch := by
  unfold measureReplacement at h
  obtain ⟨_, hsome, h⟩ := bind_eq_ok.mp h
  obtain ⟨metadata', -, h⟩ := bind_eq_ok.mp h
  obtain ⟨_, -, h⟩ := bind_eq_ok.mp h
  obtain ⟨retiring, hretired, h⟩ := bind_eq_ok.mp h
  obtain ⟨others, hothers, h⟩ := bind_eq_ok.mp h
  obtain ⟨_, hcount, h⟩ := bind_eq_ok.mp h
  obtain ⟨added', hadded, h⟩ := bind_eq_ok.mp h
  obtain ⟨kept, hkept, h⟩ := bind_eq_ok.mp h
  obtain ⟨_, hentities, h⟩ := bind_eq_ok.mp h
  obtain ⟨scratch', hscratch, h⟩ := bind_eq_ok.mp h
  obtain ⟨both, hboth, h⟩ := bind_eq_ok.mp h
  obtain ⟨_, hreserve, h⟩ := bind_eq_ok.mp h
  cases h
  obtain ⟨hle, rfl⟩ := checkedSub_eq_some.mp (obtainOr_eq_ok.mp hothers)
  obtain ⟨hle', rfl⟩ := checkedSub_eq_some.mp (obtainOr_eq_ok.mp hkept)
  have hadded := checkedSum_eq_some (orCapacity_eq_ok.mp (orHalt_eq_ok.mp hadded))
  obtain ⟨groups, hgroups, hscratch⟩ :=
    Option.bind_eq_some_iff.mp (orCapacity_eq_ok.mp (orHalt_eq_ok.mp hscratch))
  obtain ⟨members, hmembers, hscratch⟩ := Option.bind_eq_some_iff.mp hscratch
  have hgroups := checkedSum_eq_some hgroups
  have hmembers := checkedSum_eq_some hmembers
  have hboth := (checkedAdd_eq_some.mp (orCapacity_eq_ok.mp (orHalt_eq_ok.mp hboth))).1
  have hreserve := (reserve_eq_ok.mp (orHalt_eq_ok.mp hreserve)).1
  have hentities := (checkedAdd_any_le.mp (require_eq_ok.mp hentities)).1
  simp only [List.sum_cons, List.sum_nil, Nat.add_zero] at hgroups hmembers
  rw [hgroups, hmembers, ← Nat.add_assoc, ← Nat.add_assoc] at hscratch
  exact
    { nonempty := (require_eq_ok.mp hsome).2.1
      found := ⟨retiring, orHalt_eq_ok.mp hretired⟩
      count := ⟨hle, require_eq_ok.mp hcount⟩
      sum := by rw [hadded, Nat.zero_add]
      entities := ⟨hle', hentities⟩
      charge := hscratch
      room := hboth ▸ hreserve }

/-- What a replacement has been checked for, and what it puts in place. -/
inductive Planned (m : PredictionManager S C D) (model : PredictionModel W S C D)
    (retired : List PredictionIdentity) (replacements : List (PublishedProof W × PredictionBinding))
    (r : Replacement S C D) : Prop where
  | intro (metadata scratch : ℕ) (fences : TopologyFences) (staged : PredictionManager S C D)
      (hmeasured : Measured m retired replacements metadata r.added scratch)
      (hfences : m.recordRetired m.topologyFences retired = .ok fences)
      (hchecked : ∀ entry ∈ replacements, m.checkReplacement fences r.tick
        (retired.map (·.group)).toFinset retired entry.1 entry.2 = .ok ())
      (hstaged : m.stageReplacements (m.bytes + metadata + scratch) replacements model = .ok staged)
      (hle : m.bytes + metadata + scratch ≤ staged.bytes)
      (hlimit : ∃ events, staged.bytes + events ≤ staged.limits.historyBytes)
      (hafter : r.fences = staged.recordGroups fences)
      (hgroups : r.staged = staged.groups)
      (hbytes : r.stagedBytes = staged.bytes - (m.bytes + metadata + scratch))

theorem planReplacement_ok (h : m.planReplacement retired replacements model = .ok r) :
    Planned m model retired replacements r := by
  unfold planReplacement at h
  obtain ⟨_, -, h⟩ := bind_eq_ok.mp h
  obtain ⟨⟨metadata, added, scratch⟩, hmeasure, h⟩ := bind_eq_ok.mp h
  obtain ⟨tick, -, h⟩ := bind_eq_ok.mp h
  obtain ⟨fences, hfences, h⟩ := bind_eq_ok.mp h
  obtain ⟨_, hchecked, h⟩ := bind_eq_ok.mp h
  obtain ⟨staged, hstaged, h⟩ := bind_eq_ok.mp h
  obtain ⟨_, -, h⟩ := bind_eq_ok.mp h
  obtain ⟨count, -, h⟩ := bind_eq_ok.mp h
  obtain ⟨events, -, h⟩ := bind_eq_ok.mp h
  obtain ⟨_, hreserve, h⟩ := bind_eq_ok.mp h
  obtain ⟨stagedBytes, hbytes, h⟩ := bind_eq_ok.mp h
  cases h
  obtain ⟨first, hfirst, hbytes⟩ := Option.bind_eq_some_iff.mp (obtainOr_eq_ok.mp hbytes)
  obtain ⟨second, hsecond, hfirst⟩ := Option.bind_eq_some_iff.mp hfirst
  have h₁ := checkedSub_eq_some.mp hsecond
  have h₂ := checkedSub_eq_some.mp hfirst
  have h₃ := checkedSub_eq_some.mp hbytes
  have hchecked : ∀ entry ∈ replacements, m.checkReplacement fences tick
      (retired.map (·.group)).toFinset retired entry.1 entry.2 = .ok () := by
    intro entry hentry
    refine loop_each (Q := fun entry _ => m.checkReplacement fences tick
      (retired.map (·.group)).toFinset retired entry.1 entry.2 =
        .ok ()) ?_ ?_ hchecked entry (.inl hentry)
    · exact fun _ _ _ hround => hround
    · exact fun _ _ _ _ _ hkept => hkept
  exact .intro metadata scratch fences staged (measureReplacement_ok hmeasure) hfences hchecked
    (orHalt_eq_ok.mp hstaged) (by omega) ⟨events, (reserve_eq_ok.mp (orHalt_eq_ok.mp hreserve)).1⟩
    rfl rfl (by dsimp only; omega)

omit [Payload S] [Payload C] [Payload D] in
theorem commitReplacement_some (hc : m.commitReplacement retired r = some m') :
    ∃ dropped old new, m.dropGroups retired = some dropped ∧
      dropped.topologyFences.bytes S C D = some old ∧ old ≤ dropped.bytes ∧
      r.fences.bytes S C D = some new ∧
      m' = { dropped with
        groups := r.staged.foldl (fun groups id history => groups.insert id history) dropped.groups
        bytes := dropped.bytes - old + r.stagedBytes + new
        topologyFences := r.fences
        entities := dropped.entities + r.added } := by
  obtain ⟨dropped, hdropped, hc⟩ := Option.bind_eq_some_iff.mp hc
  obtain ⟨old, hold, hc⟩ := Option.bind_eq_some_iff.mp hc
  obtain ⟨rest, hrest, hc⟩ := Option.bind_eq_some_iff.mp hc
  obtain ⟨new, hnew, rfl⟩ := Option.map_eq_some_iff.mp hc
  obtain ⟨hle, rfl⟩ := checkedSub_eq_some.mp hrest
  exact ⟨dropped, old, new, hdropped, hold, hle, hnew, rfl⟩

/-- A replacement changes nothing, or commits its plan. -/
theorem replaceGroups_cases (m : PredictionManager S C D) (model : PredictionModel W S C D)
    (retired : List PredictionIdentity)
    (replacements : List (PublishedProof W × PredictionBinding)) :
    ((m.replaceGroups retired replacements model).1 = m ∧
        ∀ rebase, (m.replaceGroups retired replacements model).2 ≠ .ok rebase) ∨
    ∃ r, Planned m model retired replacements r ∧
      m.commitReplacement retired r = some (m.replaceGroups retired replacements model).1 := by
  unfold replaceGroups
  split
  · exact .inl ⟨rfl, nofun⟩
  · exact .inl ⟨rfl, nofun⟩
  · exact .inl ⟨rfl, nofun⟩
  · rename_i r hplan
    split
    · exact .inl ⟨rfl, nofun⟩
    · rename_i after hcommit
      exact .inr ⟨r, planReplacement_ok hplan, hcommit⟩

theorem replaceGroups_groups
    (hg : (m.replaceGroups retired replacements model).1.groups[g]? = some h) :
    m.groups[g]? = some h ∨ Entered m.limits replacements g h := by
  rcases m.replaceGroups_cases model retired replacements with ⟨hsame, -⟩ | ⟨r, hplan, hcommit⟩
  · rw [hsame] at hg
    exact .inl hg
  · obtain ⟨metadata, scratch, fences, staged, -, -, -, hstaged, -, -, -, hgroups, -⟩ := hplan
    obtain ⟨dropped, old, new, hdropped, -, -, -, heq⟩ := commitReplacement_some hcommit
    rw [heq] at hg
    dsimp only at hg
    rw [lookup_foldl_entries, hgroups, Option.or_eq_some_iff] at hg
    rcases hg with hg | ⟨-, hg⟩
    · exact .inr (stageReplacements_entered hstaged hg)
    · exact .inl (dropGroups_groups hdropped hg)

theorem initializeGroup_groups
    (hg : (m.initializeGroup proof binding model).1.groups[g]? = some h) :
    m.groups[g]? = some h ∨ Entered m.limits [(proof, binding)] g h := by
  unfold initializeGroup at hg
  split at hg
  · exact .inl hg
  · rename_i after henter
    obtain ⟨-, entered, hdecode, rfl⟩ := enterGroup_ok henter
    dsimp only at hg
    rw [lookup_insert] at hg
    split_ifs at hg with heq
    · cases hg
      exact .inr ⟨m, (proof, binding), List.mem_cons_self, heq, rfl, hdecode⟩
    · exact .inl hg

theorem reconcileGroup_touched [BEq S] [BEq D] {work : PredictionWork} {correction : Correction}
    (hr : m.reconcileGroup h proof binding finalizedThrough model = (work, .ok (h', correction))) :
    h' = h ∨ Touched m model h h' := by
  rcases reconcileGroup_ok hr with ⟨-, hsame⟩ | ⟨frame, predicted, decoded, ha, hcase⟩
  · exact .inl hsame
  · rcases hcase with ⟨-, hstate, hdeps, hclean, hagreed⟩ | ⟨-, ⟨perFrame, hper, hreserve⟩,
      hreplayed⟩
    · exact .inr (.agreed h' proof binding frame predicted decoded ha hstate hdeps hclean hagreed)
    · exact .inr (.replayed h' proof binding frame predicted perFrame decoded ha hper hreserve
        hreplayed)

theorem reconcile_groups [BEq S] [BEq D]
    (hg : (m.reconcile proof binding finalizedThrough model).1.groups[g]? = some h') :
    m.groups[g]? = some h' ∨ ∃ h, m.groups[g]? = some h ∧ Touched m model h h' := by
  unfold reconcile at hg
  split at hg
  · exact .inl hg
  · exact withGroup_groups (fun h h' work value _ happly => reconcileGroup_touched happly) hg

/-! ### Any call -/

/-- **What a call can do to the groups.** -/
theorem call_groups [BEq S] [BEq C] [BEq D] (c : Call W S C D)
    (hg : (m.call model c).1.groups[g]? = some h') :
    m.groups[g]? = some h' ∨ (∃ h, m.groups[g]? = some h ∧ Touched m model h h') ∨
      ∃ entries : List (PublishedProof W × PredictionBinding), Entered m.limits entries g h' := by
  have hpredict : ∀ (group target : ℕ) (input : ReplayInput C) (dependencies : DependencyFrame D),
      (m.predictInput group target input dependencies model).1.groups[g]? = some h' →
        m.groups[g]? = some h' ∨ ∃ h, m.groups[g]? = some h ∧ Touched m model h h' :=
    fun group target input dependencies => withGroup_groups fun h h' work value _ happly =>
      (predictGroup_ok happly).imp_right fun ha => .appended h' target input dependencies ha
  cases c with
  | beginFrame frame =>
    refine .inl ?_
    change (m.beginFrame frame).1.groups[g]? = some h' at hg
    unfold beginFrame at hg
    split_ifs at hg <;> exact hg
  | initializeGroup proof binding =>
      exact (initializeGroup_groups hg).imp_right fun he => .inr ⟨_, he⟩
  | predict group command dependencies =>
    exact (hpredict _ _ _ _ hg).imp_right .inl
  | predictSubstitute group target dependencies =>
    exact (hpredict _ _ _ _ hg).imp_right .inl
  | updateDependencies group tick dependencies =>
    change (m.updateDependencies group tick dependencies).1.groups[g]? = some h' at hg
    unfold updateDependencies at hg
    refine (withGroup_groups (fun h h' work value _ happly => ?_) hg).imp_right .inl
    obtain ⟨-, hupdate⟩ := Prod.mk.inj happly
    exact (updateGroup_ok hupdate).imp_right fun hs => .sampled h' tick dependencies hs
  | reconcile proof binding finalizedThrough =>
    change (m.reconcile proof binding finalizedThrough model).1.groups[g]? = some h' at hg
    exact (reconcile_groups hg).imp_right .inl
  | replaceGroups retired replacements =>
    change (m.replaceGroups retired replacements model).1.groups[g]? = some h' at hg
    exact (replaceGroups_groups hg).imp_right fun he => .inr ⟨_, he⟩
  | revokeScope scope =>
    change (m.revokeScope scope).groups[g]? = some h' at hg
    unfold revokeScope at hg
    dsimp only at hg
    rw [ExtTreeMap.getElem?_map, Option.map_eq_some_iff] at hg
    obtain ⟨h, hfound, heq⟩ := hg
    split_ifs at heq
    · exact .inr (.inl ⟨h, hfound, heq ▸ .recovered _⟩)
    · exact .inl (heq ▸ hfound)
  | removeGroup group =>
    refine .inl ?_
    change (m.removeGroup group).1.groups[g]? = some h' at hg
    unfold removeGroup at hg
    split at hg
    · exact hg
    · rename_i hdrop
      exact dropGroup_groups hdrop hg

end PredictionManager
end Net.Prediction
