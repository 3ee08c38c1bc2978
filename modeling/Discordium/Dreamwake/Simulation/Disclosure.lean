import Discordium.Dreamwake.Simulation.Capture
import Discordium.Lib.Search

/-!
# Dreamwake — Simulation — Disclosure

What the projections of a capture tell of a hero whose id the connection may not learn.  Two
captures are compared: one, and one in which the hero has another, unused id and another state, and
moves and takes part as before.

**Noninterference** (`hidden_source_noninterference`).  If neither id is approved, every projectile
and wisp is projected alike from both; the hero's effects are projected from neither; and their
events are projected alike, anonymously or not at all.

A wisp is projected with the velocity of its owner, so an owner's motion is not hidden: it is held
fixed in the comparison.
-/

namespace Dreamwake.Simulation
open Lib Net

/-! ### Disguises -/

/-- The hidden id replaced by the fresh one. -/
def renameId (hidden fresh id : ℕ) : ℕ := if id = hidden then fresh else id

def GraphicsId.rename (hidden fresh : ℕ) (id : GraphicsId) : GraphicsId :=
  { id with owner := renameId hidden fresh id.owner }

/-- A hero beside its disguise: the hidden hero keeps its motion and whether it is active, and any
other hero is the same. -/
def Disguise {F : Type} (hidden fresh : ℕ) (hero hero' : SavedHero F) : Prop :=
  if hero.view.id = hidden then
    hero'.view.id = fresh ∧ hero'.motion = hero.motion ∧ hero'.active = hero.active
  else hero' = hero

/-- A capture beside one in which the hidden hero is disguised: as a hero, and as the owner of
projectiles, wisps and effects.  A capture has its heroes and effects in the order of their ids,
which a disguise may change; the ids are distinct, as `validate_capture` demands. -/
structure Disguised {F : Type} (hidden fresh : ℕ)
    (capture capture' : CommittedReplication F) : Prop where
  stamp : capture'.stamp = capture.stamp
  heroes : ∃ disguised, List.Forall₂ (Disguise hidden fresh) capture.state.heroes disguised ∧
    capture'.state.heroes.Perm disguised
  enemies : capture'.state.enemies = capture.state.enemies
  covers : capture'.state.covers = capture.state.covers
  platforms : capture'.state.platforms = capture.state.platforms
  projectiles : capture'.state.projectiles = capture.state.projectiles.map fun projectile =>
    { projectile with owner := renameId hidden fresh projectile.owner }
  wisps : capture'.state.wisps = capture.state.wisps.map fun wisp =>
    { wisp with owner := renameId hidden fresh wisp.owner }
  effects : capture'.state.effects.Perm (capture.state.effects.map fun effect =>
    { effect with id := effect.id.rename hidden fresh })
  numbers : capture'.state.numbers = capture.state.numbers
  distinct_heroes : (capture.state.heroes.map (·.view.id)).Nodup
  distinct_effects : (capture.state.effects.map (·.id)).Nodup
  /-- The fresh id is in no use. -/
  fresh_hero : ∀ hero ∈ capture.state.heroes, hero.view.id ≠ fresh
  fresh_projectile : ∀ projectile ∈ capture.state.projectiles, projectile.owner ≠ fresh
  fresh_wisp : ∀ wisp ∈ capture.state.wisps, wisp.owner ≠ fresh
  fresh_effect : ∀ effect ∈ capture.state.effects, effect.id.owner ≠ fresh

section renames
variable {hidden fresh : ℕ}

theorem renameId_inj {id other : ℕ} (hid : id ≠ fresh) (hother : other ≠ fresh)
    (h : renameId hidden fresh id = renameId hidden fresh other) : id = other := by
  unfold renameId at h
  split_ifs at h with h₁ h₂ h₂
  · exact h₁.trans h₂.symm
  · exact absurd h.symm hother
  · exact absurd h hid
  · exact h

theorem GraphicsId.rename_inj {id other : GraphicsId} (hid : id.owner ≠ fresh)
    (hother : other.owner ≠ fresh) (h : id.rename hidden fresh = other.rename hidden fresh) :
    id = other := by
  obtain ⟨scope, epoch, owner, seq, slot⟩ := id
  obtain ⟨scope', epoch', owner', seq', slot'⟩ := other
  simp only [GraphicsId.rename, GraphicsId.mk.injEq] at h ⊢
  exact ⟨h.1, h.2.1, renameId_inj hid hother h.2.2.1, h.2.2.2⟩

/-- An id that is not the hidden source's keeps its name. -/
theorem GraphicsId.rename_of_ne {id : GraphicsId} (h : id.owner ≠ hidden) :
    id.rename hidden fresh = id := by
  rw [GraphicsId.rename, renameId, if_neg h]

/-- What a disguise keeps of any hero. -/
theorem Disguise.spec {F : Type} {hero hero' : SavedHero F} (h : Disguise hidden fresh hero hero') :
    hero'.view.id = renameId hidden fresh hero.view.id ∧ hero'.motion = hero.motion ∧
      hero'.active = hero.active := by
  unfold Disguise at h
  unfold renameId
  split_ifs at h ⊢
  · exact h
  · rw [h]
    exact ⟨rfl, rfl, rfl⟩

/-- A source that is not approved under either id is approved under neither; another keeps its
id. -/
theorem allows_renameId {sources : ApprovedSources} (hhidden : ¬sources.allows hidden)
    (hfresh : ¬sources.allows fresh) (id : ℕ) :
    (if sources.allows (renameId hidden fresh id) then some (renameId hidden fresh id) else none) =
      if sources.allows id then some id else none := by
  unfold renameId
  split_ifs with h <;> simp_all

end renames

/-! ### The index -/

section index
variable {α : Type} {key : α → ReplicationKey} {actors : List α} {k : ReplicationKey}

theorem lookup_placed_eq_none (h : ∀ actor ∈ actors, key actor ≠ k) :
    (placed key actors).reverse.lookup k = none := by
  refine List.lookup_eq_none_iff.mpr fun entry hentry => ?_
  obtain ⟨actor, hactor, hkey⟩ :=
    List.mem_map.mp (List.fst_mem_of_mem_zipIdx (List.mem_reverse.mp hentry))
  rw [← hkey]
  simpa using (h actor hactor).symm

/-- Actors with distinct keys are found under them. -/
theorem lookup_placed (hnodup : (actors.map key).Nodup) :
    ((placed key actors).reverse.lookup k).bind (actors[·]?) = actors.find? (key · = k) := by
  cases hfind : actors.find? (key · = k) with
  | none =>
    rw [lookup_placed_eq_none fun actor hactor =>
      by simpa using List.find?_eq_none.mp hfind actor hactor]
    rfl
  | some actor =>
    have hmem := List.mem_of_find?_eq_some hfind
    have hkey : key actor = k := by simpa using List.find?_some hfind
    cases hlookup : (placed key actors).reverse.lookup k with
    | none =>
      obtain ⟨i, hi⟩ := List.mem_iff_getElem?.mp hmem
      have hplaced : (k, i) ∈ placed key actors := by
        simp [placed, List.mk_mem_zipIdx_iff_getElem?, hi, hkey]
      simpa using List.lookup_eq_none_iff.mp hlookup _ (List.mem_reverse.mpr hplaced)
    | some i =>
      obtain ⟨before, after, heq, -⟩ := List.lookup_eq_some_iff.mp hlookup
      have hplaced : (k, i) ∈ placed key actors := by
        rw [← List.mem_reverse, heq]
        simp
      obtain ⟨other, hother, hsame⟩ : ∃ other, actors[i]? = some other ∧ key other = k := by
        simpa [placed, List.mk_mem_zipIdx_iff_getElem?] using hplaced
      rw [Option.bind_some, hother,
        List.inj_on_of_nodup_map hnodup (List.mem_of_getElem? hother) hmem (hsame.trans hkey.symm)]

theorem lookup_covers_eq_none {F : Type} {covers : List (SavedCover F × ℕ)}
    (hcover : ∀ id, k ≠ .cover id) (hmarker : ∀ id, k ≠ .coverMarker id) :
    (covers.flatMap fun (cover, i) => [(.cover cover.id, i),
      (.coverMarker cover.markerId, i)]).reverse.lookup k =
      none := by
  refine List.lookup_eq_none_iff.mpr fun entry hentry => ?_
  obtain ⟨⟨cover, i⟩, -, hmem⟩ := List.mem_flatMap.mp (List.mem_reverse.mp hentry)
  simp only [List.mem_cons, List.not_mem_nil, or_false] at hmem
  rcases hmem with rfl | rfl
  · simpa using hcover cover.id
  · simpa using hmarker cover.markerId

variable {F : Type} (capture : CommittedReplication F)

theorem place_projectile (id : ℕ) : capture.place (.projectile id) =
    (placed (fun projectile => .projectile projectile.id) capture.state.projectiles).reverse.lookup
      (.projectile id) := by
  simp [CommittedReplication.place, CapturedState.entries, List.lookup_append,
    lookup_placed_eq_none, lookup_covers_eq_none]

theorem place_wisp (id : ℕ) : capture.place (.wisp id) =
    (placed (fun wisp => .wisp wisp.id) capture.state.wisps).reverse.lookup (.wisp id) := by
  simp [CommittedReplication.place, CapturedState.entries, List.lookup_append,
    lookup_placed_eq_none, lookup_covers_eq_none]

theorem place_effect (id : GraphicsId) : capture.place (.effect id) =
    (placed (fun effect => .effect effect.id) capture.state.effects).reverse.lookup
    (.effect id) := by
  simp [CommittedReplication.place, CapturedState.entries, List.lookup_append,
    lookup_placed_eq_none, lookup_covers_eq_none]

variable {capture}

/-- The effect at the place of an id is the one with this id. -/
theorem placed_effect (hdistinct : (capture.state.effects.map (·.id)).Nodup) (id : GraphicsId) :
    (capture.place (.effect id)).bind (capture.state.effects[·]?) =
      capture.state.effects.find? (·.id = id) := by
  have hnodup :
      (capture.state.effects.map fun effect => ReplicationKey.effect effect.id).Nodup := by
    refine List.Nodup.map_on (fun a ha b hb heq => ?_) hdistinct.of_map
    exact List.inj_on_of_nodup_map hdistinct ha hb (ReplicationKey.effect.inj heq)
  rw [place_effect, lookup_placed hnodup]
  simp only [ReplicationKey.effect.injEq]

end index

/-! ### Noninterference -/

section noninterference
variable {F : Type} {hidden fresh : ℕ} {capture capture' : CommittedReplication F}
  {sources : ApprovedSources}

theorem Disguised.projectProjectile (h : Disguised hidden fresh capture capture')
    (hhidden : ¬sources.allows hidden) (hfresh : ¬sources.allows fresh) (id : ℕ) :
    capture'.projectProjectile sources id = capture.projectProjectile sources id := by
  have hplace : capture'.place (.projectile id) = capture.place (.projectile id) := by
    rw [place_projectile, place_projectile, h.projectiles, placed, List.map_map]
    rfl
  unfold CommittedReplication.projectProjectile
  rw [hplace, h.projectiles]
  congr 1
  funext i
  simp only [List.getElem?_map, Option.map_map, Function.comp_def, allows_renameId hhidden hfresh]

variable {id : GraphicsId}

/-- The effect of a source that is not approved is not projected. -/
theorem projectEffect_hidden (h : ¬sources.allows id.owner) :
    capture.projectEffect sources id = none :=
  if_pos h

theorem projectEffect_eq (hdistinct : (capture.state.effects.map (·.id)).Nodup) :
    capture.projectEffect sources id = if ¬sources.allows id.owner then none
      else (capture.state.effects.find? (·.id = id)).map fun effect =>
        { id := { effect.id with matchEpoch := capture.stamp.matchEpoch }
          kind := effect.kind
          position := effect.pos
          radius := effect.radius
          ageTicks := effect.ageTicks
          durationTicks := effect.durationTicks } := by
  rw [CommittedReplication.projectEffect, ← placed_effect hdistinct, Option.map_bind]
  rfl

section
variable (h : Disguised hidden fresh capture capture')
include h

/-- The effects of a disguised capture have distinct ids too. -/
theorem Disguised.distinct_effects' : (capture'.state.effects.map (·.id)).Nodup := by
  rw [(h.effects.map _).nodup_iff, List.map_map]
  refine List.Nodup.map_on (fun a ha b hb heq => ?_) h.distinct_effects.of_map
  exact List.inj_on_of_nodup_map h.distinct_effects ha hb
    (GraphicsId.rename_inj (h.fresh_effect a ha) (h.fresh_effect b hb) heq)

/-- **An effect is found under its new id**, wherever the order of the ids has put it. -/
theorem Disguised.find_effect (hid : id.owner ≠ fresh) :
    capture'.state.effects.find? (·.id = id.rename hidden fresh) =
      (capture.state.effects.find? (·.id = id)).map fun effect =>
        { effect with id := effect.id.rename hidden fresh } := by
  have hunique : ∀ {effects : List (GraphicsInstance F)} {id : GraphicsId},
      (effects.map (·.id)).Nodup → ∀ a ∈ effects, ∀ b ∈ effects, decide (a.id = id) = true →
        decide (b.id = id) = true → a = b := by
    intro effects id hnodup a ha b hb hida hidb
    exact List.inj_on_of_nodup_map hnodup ha hb ((of_decide_eq_true hida).trans
      (of_decide_eq_true hidb).symm)
  ext effect'
  rw [find?_eq_some_iff_of_unique (hunique h.distinct_effects'), Option.map_eq_some_iff,
    h.effects.mem_iff, List.mem_map, decide_eq_true_eq]
  constructor
  · rintro ⟨⟨effect, hmem, rfl⟩, heq⟩
    refine ⟨effect, (find?_eq_some_iff_of_unique (hunique h.distinct_effects)).mpr ⟨hmem, ?_⟩, rfl⟩
    exact decide_eq_true (GraphicsId.rename_inj (h.fresh_effect effect hmem) hid heq)
  · rintro ⟨effect, hfound, rfl⟩
    obtain ⟨hmem, heq⟩ := (find?_eq_some_iff_of_unique (hunique h.distinct_effects)).mp hfound
    exact ⟨⟨effect, hmem, rfl⟩, by rw [of_decide_eq_true heq]⟩

/-- An effect is projected under its own id, or under none. -/
theorem Disguised.projectEffect
    (hhidden : ¬sources.allows hidden) (hfresh : ¬sources.allows fresh) (hid : id.owner ≠ fresh) :
    capture'.projectEffect sources (id.rename hidden fresh) = capture.projectEffect sources id := by
  by_cases howner : id.owner = hidden
  · have hrenamed : ¬sources.allows (id.rename hidden fresh).owner := by
      rwa [show (id.rename hidden fresh).owner = fresh from if_pos howner]
    rw [projectEffect_hidden hrenamed, projectEffect_hidden (howner ▸ hhidden)]
  · rw [projectEffect_eq h.distinct_effects', projectEffect_eq h.distinct_effects,
      h.find_effect hid, h.stamp, GraphicsId.rename_of_ne howner]
    cases hfind : capture.state.effects.find? (·.id = id) with
    | none => rfl
    | some effect =>
      have hsame : effect.id = id := by simpa using List.find?_some hfind
      simp only [Option.map_some, hsame, GraphicsId.rename_of_ne howner]

end

/-- A disguise of all heroes keeps what is found of an owner. -/
theorem find_disguised {heroes disguised : List (SavedHero F)}
    (h : List.Forall₂ (Disguise hidden fresh) heroes disguised)
    (hfresh : ∀ hero ∈ heroes, hero.view.id ≠ fresh) {owner : ℕ} (howner : owner ≠ fresh) :
    (disguised.find? fun hero => hero.view.id = renameId hidden fresh owner && hero.active).map
        (fun hero => planarVelocity hero.motion) =
      (heroes.find? fun hero => hero.view.id = owner && hero.active).map
        fun hero => planarVelocity hero.motion := by
  induction h with
  | nil => rfl
  | @cons hero hero' heroes disguised hdisguise _ ih =>
    have hrest := ih fun hero hmem => hfresh hero (List.mem_cons_of_mem _ hmem)
    have hhero := hfresh hero List.mem_cons_self
    obtain ⟨hid, hmotion, hactive⟩ := hdisguise.spec
    have hiff : hero'.view.id = renameId hidden fresh owner ↔ hero.view.id = owner :=
      ⟨fun heq => renameId_inj hhero howner (hid.symm.trans heq), fun heq => heq ▸ hid⟩
    simp only [List.find?_cons, hiff, hactive]
    split
    · simp only [Option.map_some, hmotion]
    · exact hrest

/-- Disguised heroes have the renamed ids. -/
theorem ids_disguised {heroes disguised : List (SavedHero F)}
    (h : List.Forall₂ (Disguise hidden fresh) heroes disguised) :
    disguised.map (·.view.id) = (heroes.map (·.view.id)).map (renameId hidden fresh) := by
  induction h with
  | nil => rfl
  | cons hdisguise _ ih => rw [List.map_cons, List.map_cons, List.map_cons, ih, hdisguise.spec.1]

variable [Floats F]

/-- A disguised hero's velocity is found under its new id, and no other hero's is touched. -/
theorem Disguised.ownerVelocity (h : Disguised hidden fresh capture capture') {owner : ℕ}
    (howner : owner ≠ fresh) :
    capture'.ownerVelocity (renameId hidden fresh owner) = capture.ownerVelocity owner := by
  obtain ⟨disguised, hheroes, hperm⟩ := h.heroes
  have hnodup : (disguised.map (·.view.id)).Nodup := by
    rw [ids_disguised hheroes]
    refine List.Nodup.map_on (fun a ha b hb => ?_) h.distinct_heroes
    obtain ⟨hero, hhero, rfl⟩ := List.mem_map.mp ha
    obtain ⟨other, hother, rfl⟩ := List.mem_map.mp hb
    exact renameId_inj (h.fresh_hero hero hhero) (h.fresh_hero other hother)
  rw [CommittedReplication.ownerVelocity, CommittedReplication.ownerVelocity,
    find?_perm_of_unique (fun a ha b hb hpa hpb => ?_) hperm,
    find_disguised hheroes h.fresh_hero howner]
  simp only [Bool.and_eq_true, decide_eq_true_eq] at hpa hpb
  exact List.inj_on_of_nodup_map hnodup ha hb (hpa.1.trans hpb.1.symm)

theorem Disguised.projectWisp (h : Disguised hidden fresh capture capture')
    (hhidden : ¬sources.allows hidden) (hfresh : ¬sources.allows fresh) (id : ℕ) :
    capture'.projectWisp sources id = capture.projectWisp sources id := by
  have hplace : capture'.place (.wisp id) = capture.place (.wisp id) := by
    rw [place_wisp, place_wisp, h.wisps, placed, List.map_map]
    rfl
  unfold CommittedReplication.projectWisp
  rw [hplace, h.wisps]
  congr 1
  funext i
  simp only [List.getElem?_map, Option.map_map, Function.comp_def, allows_renameId hhidden hfresh]
  cases hwisp : capture.state.wisps[i]? with
  | none => rfl
  | some wisp =>
    have howner := h.fresh_wisp wisp (List.mem_of_getElem? hwisp)
    simp only [Option.map_some, h.ownerVelocity howner]

/-- An event is shown as the game's rules disclose its effect. -/
theorem projectEvent_eq (hdistinct : (capture.state.effects.map (·.id)).Nodup)
    (connection policy proxyId : ℕ) :
    capture.projectEvent sources id connection policy proxyId =
      (capture.state.effects.find? (·.id = id)).bind fun effect =>
        if connection ≠ 0 ∧ policy ≠ 0 then
          ((dreamEventAudience sources policy).disclosure connection effect).bind fun
            | .sourceVisible => capture.projectEffect sources id
            | .anonymous => (CommittedReplication.coarseProxy proxyId effect).project capture.stamp
        else none := by
  rw [CommittedReplication.projectEvent, ← placed_effect hdistinct, Option.bind_assoc]
  congr 1
  funext i
  congr 1
  funext effect
  exact EventAudience.project_authorize

/-- The rules disclose a renamed effect alike: its source is approved under neither id. -/
theorem disclosure_rename (hhidden : ¬sources.allows hidden) (hfresh : ¬sources.allows fresh)
    (effect : GraphicsInstance F) (connection policy : ℕ) :
    (dreamEventAudience sources policy).disclosure connection
        { effect with id := effect.id.rename hidden fresh } =
      (dreamEventAudience sources policy).disclosure connection effect := by
  have hallows : sources.allows (effect.id.rename hidden fresh).owner =
      sources.allows effect.id.owner := by
    simp only [GraphicsId.rename, renameId]
    split_ifs with h
    · rw [h, Bool.eq_false_iff.mpr hhidden, Bool.eq_false_iff.mpr hfresh]
    · rfl
  simp only [dreamEventAudience, hallows]

theorem Disguised.projectEvent (h : Disguised hidden fresh capture capture')
    (hhidden : ¬sources.allows hidden) (hfresh : ¬sources.allows fresh) (hid : id.owner ≠ fresh)
    (connection policy proxyId : ℕ) :
    capture'.projectEvent sources (id.rename hidden fresh) connection policy proxyId =
      capture.projectEvent sources id connection policy proxyId := by
  rw [projectEvent_eq h.distinct_effects', projectEvent_eq h.distinct_effects, h.find_effect hid]
  cases hfind : capture.state.effects.find? (·.id = id) with
  | none => rfl
  | some effect =>
    rw [Option.map_some, Option.bind_some, Option.bind_some, disclosure_rename hhidden hfresh,
      h.projectEffect hhidden hfresh hid, h.stamp]
    rfl

/-- **A source that is not approved does not show.**  Captures that differ in the id and the state
of a hidden hero, its motion and whether it is active apart, are projected alike. -/
theorem hidden_source_noninterference (h : Disguised hidden fresh capture capture')
    (hhidden : ¬sources.allows hidden) (hfresh : ¬sources.allows fresh) :
    (∀ id, capture'.project sources (.projectile id) = capture.project sources (.projectile id)) ∧
    (∀ id, capture'.project sources (.wisp id) = capture.project sources (.wisp id)) ∧
    (∀ effect ∈ capture.state.effects,
      (effect.id.owner = hidden →
        capture.project sources (.effect effect.id) = none ∧
        capture'.project sources (.effect (effect.id.rename hidden fresh)) = none) ∧
      capture'.project sources (.effect (effect.id.rename hidden fresh)) =
        capture.project sources (.effect effect.id) ∧
      ∀ connection policy proxyId,
        capture'.projectEvent sources (effect.id.rename hidden fresh) connection policy proxyId =
          capture.projectEvent sources effect.id connection policy proxyId) := by
  refine ⟨fun id => ?_, fun id => ?_, fun effect heffect => ⟨fun howner => ?_, ?_, ?_⟩⟩
  · rw [CommittedReplication.project, CommittedReplication.project,
      h.projectProjectile hhidden hfresh]
  · rw [CommittedReplication.project, CommittedReplication.project, h.projectWisp hhidden hfresh]
  · have hnone : capture.projectEffect sources effect.id = none :=
      projectEffect_hidden (howner ▸ hhidden)
    rw [CommittedReplication.project, CommittedReplication.project,
      h.projectEffect hhidden hfresh (h.fresh_effect effect heffect), hnone]
    exact ⟨rfl, rfl⟩
  · rw [CommittedReplication.project, CommittedReplication.project,
      h.projectEffect hhidden hfresh (h.fresh_effect effect heffect)]
  · exact h.projectEvent hhidden hfresh (h.fresh_effect effect heffect)

end noninterference

/-- Whole numbers in place of floats, for evaluation. -/
instance : Floats ℤ where
  lit q := q.floor
  ofInt := id
  toInt := id
  add := (· + ·)
  sub := (· - ·)
  mul := (· * ·)
  div := (· / ·)
  sin := id
  cos := id
  abs v := |v|
  floor := id
  isFinite _ := true
  lt a b := decide (a < b)
  yaw _ := (0, 1)

/-- A hero with this id, at this level, moving with velocity `(3, 4)`. -/
def moving (id level : ℕ) : SavedHero ℤ where
  view := ⟨id, (1, 2, 3), 0, 0, 0⟩
  active := true
  health := ⟨10, 10⟩
  combat := ⟨0, 0, []⟩
  motion := ⟨(0, 0, 0), (3, 0, 4), (1, 0), .standing, 0⟩
  level := level

/-- A hero with a wisp and a pulse beside hero 2 with one, in the order of their ids. -/
def haunted (id level : ℕ) : CommittedReplication ℤ :=
  let pulse (owner : ℕ) : GraphicsInstance ℤ :=
    ⟨⟨none, 1, owner, 7, 0⟩, .radialPulse, (17, -3), 2, 0, 20⟩
  { stamp := ⟨1, 1, 1, 1, 1⟩
    state := {
      heroes := if id < 2 then [moving id level, moving 2 1] else [moving 2 1, moving id level]
      enemies := []
      covers := []
      platforms := []
      projectiles := []
      wisps := [⟨40, id, (5, 6), 9, 1, 1, 1, none⟩]
      effects := if id < 2 then [pulse id, pulse 2] else [pulse 2, pulse id]
      numbers := [] } }

/-- The wisp of hero 1 goes with the same velocity as that of hero 7, who comes after hero 2, and
the pulse is shown in its cell without a source. -/
theorem hidden_source_noninterference_haunted :
    (haunted 7 5).project ⟨∅⟩ (.wisp 40) = (haunted 1 2).project ⟨∅⟩ (.wisp 40) ∧
    (haunted 1 2).project ⟨∅⟩ (.wisp 40) = some (.wisp ⟨40, none, (5, 6), (2, 5), 9, none⟩) ∧
    (haunted 7 5).projectEvent ⟨∅⟩ ⟨none, 1, 7, 7, 0⟩ 3 1 77 =
      (haunted 1 2).projectEvent ⟨∅⟩ ⟨none, 1, 1, 7, 0⟩ 3 1 77 ∧
    ((haunted 1 2).projectEvent ⟨∅⟩ ⟨none, 1, 1, 7, 0⟩ 3 1 77).map (·.id) =
    some ⟨none, 1, 0, 77, 65535⟩ := by
  have h : Disguised 1 7 (haunted 1 2) (haunted 7 5) := by
    refine ⟨rfl, ⟨[moving 7 5, moving 2 1], ?_, .swap _ _ _⟩, rfl, rfl, rfl, rfl, rfl, .swap _ _ _,
      rfl, ?_, ?_, ?_, ?_, ?_, ?_⟩
    · exact .cons ⟨rfl, rfl, rfl⟩ (.cons rfl .nil)
    all_goals simp [haunted, moving]
  obtain ⟨-, hwisp, heffect⟩ :=
    @hidden_source_noninterference ℤ 1 7 _ _ ⟨∅⟩ _ h (by decide) (by decide)
  have hevent := (heffect _ List.mem_cons_self).2.2 3 1 77
  exact ⟨hwisp 40, by decide +kernel, hevent, by decide +kernel⟩

end Dreamwake.Simulation
