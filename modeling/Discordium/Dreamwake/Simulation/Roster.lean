import Mathlib
import Discordium.Lib.Machine

/-!
# Dreamwake — Simulation — Roster

The party of `simulation.rs`: the heroes with their ids, active flags and colours, and the party
size that is kept beside them.  The other components of a hero and the effects and enemies the same
calls touch are left out.  Nothing in a step writes an id, a flag, a colour or the party size,
spawns a hero or despawns one; the order in which the world gives the heroes out is open, so a step
may leave them in any.

**Consistency** (`roster_consistent`).  Over every run the ids and the colours are pairwise distinct
and the party size is the number of active heroes; and a restart leaves the same heroes.
-/

namespace Dreamwake.Simulation.Roster
open Lib

/-- Red, green and blue. -/
abbrev Color := ℕ × ℕ × ℕ

/-- `MAX_HEROES`. -/
def maxHeroes : ℕ := 128

/-- A channel in 64ths of the range, rounded.  No value of the palette is within 1/256 of a tie, so
the float arithmetic rounds alike. -/
def channel (value : ℕ) : ℕ := (522240 + 16065 * value + 3200) / 6400

/-- The hue and the middle channel are multiples of 1/64, which floats hold exactly. -/
def playerColorForSlot (slot : ℕ) : Color :=
  let hue := (slot * 79 + 64) % maxHeroes * 3
  let x := 64 - ((hue % 128 - 64) + (64 - hue % 128))
  let (r, g, b) := match hue / 64 with
    | 0 => (64, x, 0)
    | 1 => (x, 64, 0)
    | 2 => (0, 64, x)
    | 3 => (0, x, 64)
    | 4 => (x, 0, 64)
    | _ => (64, 0, x)
  (channel r, channel g, channel b)

/-- A colour of the palette. -/
def validPlayerColor (color : Color) : Bool :=
  (List.range maxHeroes).any (playerColorForSlot · = color)

/-- What the roster has of a hero. -/
structure Hero where
  id : ℕ
  active : Bool
  color : Color
  deriving DecidableEq

/-- The heroes, and the party size the simulation keeps. -/
structure Party where
  heroes : List Hero
  partySize : ℕ

namespace Party

/-- A new simulation has one active hero. -/
def new : Party := ⟨[⟨1, true, playerColorForSlot 0⟩], 1⟩

/-- The first hero with an id set active or inactive. -/
def activate (id : ℕ) (active : Bool) : List Hero → List Hero
  | [] => []
  | hero :: heroes =>
      if hero.id = id then { hero with active } :: heroes else hero :: activate id active heroes

/-- Sets a hero active or inactive and counts it in or out; whether there is such a hero. -/
def setPlayerActivity (party : Party) (id : ℕ) (active : Bool) : Party × Bool :=
  match party.heroes.find? (·.id = id) with
  | none => (party, false)
  | some hero =>
    if hero.active = active then (party, true)
    else (⟨activate id active party.heroes, if active then party.partySize + 1
      else party.partySize - 1⟩, true)

/-- The colour a hero joins with: the preserved one if it is free, or the first free one. -/
def freeColor (heroes : List Hero) (preserved : Option Color) : Option Color :=
  let used := heroes.map (·.color)
  (preserved.filter fun color => validPlayerColor color && color ∉ used).or
    (((List.range maxHeroes).map playerColorForSlot).find? (· ∉ used))

/-- Adds a hero with a free colour; an id that is there already is accepted. -/
def addPlayerWithActivity (party : Party) (id : ℕ) (active : Bool) (preserved : Option Color) :
    Party × Bool :=
  if id = 0 ∨ 2 ^ 63 ≤ id then (party, false)
  else if id ∈ party.heroes.map (·.id) then (party, true)
  else if maxHeroes ≤ party.heroes.length then (party, false)
  else
    match freeColor party.heroes preserved with
    | none => (party, false)
    | some color =>
      -- the size grows from a count of the heroes and not from the size kept
      (⟨party.heroes ++ [⟨id, active, color⟩],
        if active then party.heroes.countP (·.active) + 1 else party.partySize⟩, true)

/-- Removes a hero, whose colour is then free. -/
def removePlayer (party : Party) (id : ℕ) : Party × Bool :=
  match party.heroes.find? (·.id = id) with
  | none => (party, false)
  | some hero =>
    (⟨party.heroes.eraseP (·.id = id), if hero.active then party.partySize - 1
      else party.partySize⟩, true)

/-- A hero of before the restart joins again, with its activity and colour. -/
def rejoin (party : Party) (hero : Hero) : Party :=
  (party.addPlayerWithActivity hero.id hero.active (some hero.color)).1

/-- A restart takes the heroes over into a new simulation, whose own hero leaves. -/
def restartParty (party : Party) : Party :=
  party.heroes.foldl rejoin (new.removePlayer 1).1

/-- The calls on the party. -/
inductive Call where
  | addPlayer (id : ℕ)
  | addPendingPlayer (id : ℕ)
  | removePlayer (id : ℕ)
  | setPlayerActive (id : ℕ) (active : Bool)
  | resumePlayer (id : ℕ)
  | restartParty
  | step (order : List Hero)

def call (party : Party) : Call → Party
  | .addPlayer id => (party.addPlayerWithActivity id true none).1
  | .addPendingPlayer id => (party.addPlayerWithActivity id false none).1
  | .removePlayer id => (party.removePlayer id).1
  | .setPlayerActive id active => (party.setPlayerActivity id active).1
  | .resumePlayer id => (party.setPlayerActivity id true).1
  | .restartParty => party.restartParty
  | .step order => if order.Perm party.heroes then { party with heroes := order } else party

/-! ### One call -/

/-- What every call keeps. -/
structure Consistent (party : Party) : Prop where
  ids : (party.heroes.map (·.id)).Nodup
  admissible : ∀ hero ∈ party.heroes, hero.id ≠ 0 ∧ hero.id < 2 ^ 63
  length : party.heroes.length ≤ maxHeroes
  palette : ∀ hero ∈ party.heroes, validPlayerColor hero.color = true
  colors : (party.heroes.map (·.color)).Nodup
  size : party.partySize = party.heroes.countP (·.active)

/-- Activity changes nothing that does not depend on it. -/
theorem map_activate {α : Type} (f : Hero → α)
    (hf : ∀ hero active, f { hero with active } = f hero) (id : ℕ) (active : Bool)
    (heroes : List Hero) : (activate id active heroes).map f = heroes.map f := by
  induction heroes with
  | nil => rfl
  | cons hero heroes ih =>
    rw [activate]
    split
    · rw [List.map_cons, List.map_cons, hf]
    · rw [List.map_cons, List.map_cons, ih]

/-- The count of active heroes moves with the activity of one. -/
theorem countP_activate {id : ℕ} {active : Bool} {heroes : List Hero} {hero : Hero}
    (h : heroes.find? (·.id = id) = some hero) :
    (activate id active heroes).countP (·.active) + hero.active.toNat =
      heroes.countP (·.active) + active.toNat := by
  induction heroes with
  | nil => cases h
  | cons head heroes ih =>
    rw [activate]
    by_cases hid : head.id = id
    · rw [List.find?_cons_of_pos (by simpa using hid)] at h
      cases h
      rw [if_pos hid, List.countP_cons, List.countP_cons]
      cases hero.active <;> cases active <;> simp
    · rw [List.find?_cons_of_neg (by simpa using hid)] at h
      rw [if_neg hid, List.countP_cons, List.countP_cons]
      have := ih h
      omega

/-- Removing a hero takes it out of every count. -/
theorem countP_eraseP {p q : Hero → Bool} {heroes : List Hero} {hero : Hero}
    (h : heroes.find? p = some hero) :
    (heroes.eraseP p).countP q + (q hero).toNat = heroes.countP q := by
  obtain ⟨hp, before, after, rfl, hbefore⟩ := List.find?_eq_some_iff_append.mp h
  rw [List.eraseP_append_right _ fun other hother => by simpa using hbefore other hother,
    List.eraseP_cons_of_pos hp]
  simp only [List.countP_append, List.countP_cons]
  cases q hero
  · simp
  · simp [Nat.add_assoc]

theorem Consistent.setPlayerActivity {party : Party} (h : Consistent party) (id : ℕ)
    (active : Bool) : Consistent (party.setPlayerActivity id active).1 := by
  unfold Party.setPlayerActivity
  split
  · exact h
  case h_2 hero hfind =>
    split
    · exact h
    case isFalse hchange =>
      have hcount := @countP_activate id active _ _ hfind
      have hkeep : ∀ p : ℕ × Color → Prop, (∀ hero ∈ party.heroes, p (hero.id, hero.color)) →
          ∀ hero ∈ activate id active party.heroes, p (hero.id, hero.color) := by
        intro p hp
        have := map_activate (fun hero => (hero.id, hero.color)) (fun _ _ => rfl) id active
          party.heroes
        rw [← List.forall_mem_map (f := fun hero : Hero => (hero.id, hero.color))] at hp ⊢
        rwa [this]
      refine ⟨?_, hkeep (fun key => key.1 ≠ 0 ∧ key.1 < 2 ^ 63) h.admissible, ?_,
        hkeep (fun key => validPlayerColor key.2 = true) h.palette, ?_, ?_⟩
      · rw [map_activate _ fun _ _ => rfl]
        exact h.ids
      · rw [← List.length_map (f := Hero.id), map_activate _ fun _ _ => rfl, List.length_map]
        exact h.length
      · rw [map_activate _ fun _ _ => rfl]
        exact h.colors
      · have hsize := h.size
        have hother : hero.active = !active := Bool.eq_not.mpr hchange
        rw [hother] at hcount
        cases active
        · simp only [Bool.not_false, Bool.toNat_true, Bool.toNat_false, Bool.false_eq_true,
            if_false] at hcount ⊢
          omega
        · simp only [Bool.not_true, Bool.toNat_true, Bool.toNat_false, if_true] at hcount ⊢
          omega

/-- The colour a hero joins with is of the palette, and no other hero has it. -/
theorem freeColor_free {heroes : List Hero} {preserved : Option Color} {color : Color}
    (h : freeColor heroes preserved = some color) :
    validPlayerColor color = true ∧ color ∉ heroes.map (·.color) := by
  rcases Option.or_eq_some_iff.mp h with hpreserved | ⟨-, hfound⟩
  · simpa using (Option.filter_eq_some_iff.mp hpreserved).2
  · obtain ⟨slot, hslot, rfl⟩ := List.mem_map.mp (List.mem_of_find?_eq_some hfound)
    refine ⟨?_, by simpa using List.find?_some hfound⟩
    exact List.any_eq_true.mpr ⟨slot, hslot, by simp⟩

/-- A hero that joins with a free colour keeps the party consistent. -/
theorem Consistent.join {party : Party} (h : Consistent party) {hero : Hero}
    (hid : hero.id ≠ 0 ∧ hero.id < 2 ^ 63) (hnew : hero.id ∉ party.heroes.map (·.id))
    (hroom : party.heroes.length < maxHeroes) (hcolor : validPlayerColor hero.color = true ∧
      hero.color ∉ party.heroes.map (·.color)) :
    Consistent ⟨party.heroes ++ [hero],
      if hero.active then party.heroes.countP (·.active) + 1 else party.partySize⟩ := by
  refine ⟨?_, ?_, ?_, ?_, ?_, ?_⟩
  · rw [List.map_append]
    exact h.ids.append (List.nodup_singleton _) (by simpa using hnew)
  · exact List.forall_mem_append.mpr ⟨h.admissible, List.forall_mem_singleton.mpr hid⟩
  · simpa using hroom
  · exact List.forall_mem_append.mpr ⟨h.palette, List.forall_mem_singleton.mpr hcolor.1⟩
  · rw [List.map_append]
    exact h.colors.append (List.nodup_singleton _) (by simpa using hcolor.2)
  · have := h.size
    cases hactive : hero.active <;> simp [hactive, List.countP_append, this]

theorem Consistent.addPlayer {party : Party} (h : Consistent party) (id : ℕ) (active : Bool)
    (preserved : Option Color) :
    Consistent (party.addPlayerWithActivity id active preserved).1 := by
  unfold addPlayerWithActivity
  split
  case isTrue => exact h
  case isFalse hid =>
    split
    case isTrue => exact h
    case isFalse hmem =>
      split
      case isTrue => exact h
      case isFalse hfull =>
        cases hcolor : freeColor party.heroes preserved with
        | none => exact h
        | some color =>
          refine @Consistent.join party h ⟨id, active, color⟩ ?_ hmem (Nat.not_le.mp hfull)
            (freeColor_free hcolor)
          dsimp only
          omega

theorem Consistent.removePlayer {party : Party} (h : Consistent party) (id : ℕ) :
    Consistent (party.removePlayer id).1 := by
  unfold Party.removePlayer
  split
  · exact h
  case h_2 hero hfind =>
    have hsub := @List.eraseP_sublist _ (fun hero : Hero => decide (hero.id = id)) party.heroes
    refine ⟨h.ids.sublist (hsub.map _), fun other hother => h.admissible other (hsub.subset hother),
      hsub.length_le.trans h.length, fun other hother => h.palette other (hsub.subset hother),
      h.colors.sublist (hsub.map _), ?_⟩
    have hcount := @countP_eraseP _ (·.active) _ _ hfind
    have hsize := h.size
    dsimp only
    split
    case isTrue hactive =>
      simp only [hactive, Bool.toNat_true] at hcount
      omega
    case isFalse hactive =>
      simp only [Bool.not_eq_true _ ▸ hactive, Bool.toNat_false] at hcount
      omega

/-! ### Restarts and runs -/

/-- No step changes more than the order of the heroes. -/
theorem Consistent.step {party : Party} (h : Consistent party) {order : List Hero}
    (hperm : order.Perm party.heroes) : Consistent { party with heroes := order } :=
  ⟨(hperm.map _).nodup_iff.mpr h.ids, fun hero hmem => h.admissible hero (hperm.mem_iff.mp hmem),
    hperm.length_eq.trans_le h.length, fun hero hmem => h.palette hero (hperm.mem_iff.mp hmem),
    (hperm.map _).nodup_iff.mpr h.colors, h.size.trans (hperm.countP_eq _).symm⟩

/-- A restart rejoins the heroes one by one, each with its own colour. -/
theorem rejoin_all {whole : Party} (h : Consistent whole) {before after : List Hero} {party : Party}
    (hparty : Consistent party) (hheroes : party.heroes = before)
    (hwhole : whole.heroes = before ++ after) :
    Consistent (after.foldl rejoin party) ∧ (after.foldl rejoin party).heroes =
      before ++ after := by
  induction after generalizing before party with
  | nil => exact ⟨hparty, by simpa using hheroes⟩
  | cons hero after ih =>
    have hmem : hero ∈ whole.heroes := by simp [hwhole]
    have hids := h.ids
    have hcolors := h.colors
    have hlength := h.length
    rw [hwhole] at hids hcolors hlength
    have hid : hero.id ∉ party.heroes.map (·.id) := by
      rw [hheroes]
      exact fun hin => (List.nodup_append.mp (by simpa using hids)).2.2 _ hin _
        List.mem_cons_self rfl
    have hfree : hero.color ∉ party.heroes.map (·.color) := by
      rw [hheroes]
      exact fun hin => (List.nodup_append.mp (by simpa using hcolors)).2.2 _ hin _
        List.mem_cons_self rfl
    have hcolor : freeColor party.heroes (some hero.color) = some hero.color := by
      rw [freeColor, Option.filter_some, if_pos (by simpa [h.palette hero hmem] using hfree),
        Option.some_or]
    have hroom : ¬maxHeroes ≤ party.heroes.length := by
      rw [hheroes]
      simp only [List.length_append, List.length_cons] at hlength
      omega
    have hbound : ¬(hero.id = 0 ∨ 2 ^ 63 ≤ hero.id) := by
      have := h.admissible hero hmem
      omega
    have hadmit : (rejoin party hero).heroes = before ++ [hero] := by
      rw [rejoin, addPlayerWithActivity, if_neg hbound, if_neg hid, if_neg hroom, hcolor, hheroes]
    obtain ⟨hkept, hall⟩ :=
      @ih (before ++ [hero]) _ (hparty.addPlayer _ _ _) hadmit (by simp [hwhole])
    exact ⟨hkept, hall.trans (by simp)⟩

/-- **A restart** leaves the same heroes. -/
theorem Consistent.restartParty {party : Party} (h : Consistent party) :
    Consistent party.restartParty ∧ party.restartParty.heroes = party.heroes := by
  have hempty : Consistent (Party.new.removePlayer 1).1 := by
    constructor <;> decide +kernel
  exact @rejoin_all party h [] party.heroes _ hempty (by decide +kernel) rfl

/-- **Every call keeps the party consistent.** -/
theorem Consistent.call {party : Party} (h : Consistent party) (call : Call) :
    Consistent (party.call call) := by
  cases call with
  | addPlayer id => exact h.addPlayer id true none
  | addPendingPlayer id => exact h.addPlayer id false none
  | removePlayer id => exact h.removePlayer id
  | setPlayerActive id active => exact h.setPlayerActivity id active
  | resumePlayer id => exact h.setPlayerActivity id true
  | restartParty => exact h.restartParty.1
  | step order =>
    rw [Party.call]
    split
    case isTrue hperm => exact h.step hperm
    case isFalse => exact h

/-- **The roster is consistent** over every run, and a restart leaves the same heroes. -/
theorem roster_consistent (calls : List Call) :
    let party := run Party.call new calls
    (party.heroes.map (·.id)).Nodup ∧ party.heroes.length ≤ maxHeroes ∧
    (∀ hero ∈ party.heroes, validPlayerColor hero.color = true) ∧
    (party.heroes.map (·.color)).Nodup ∧ party.partySize = party.heroes.countP (·.active) ∧
      party.restartParty.heroes = party.heroes := by
  intro party
  have hnew : Consistent new := by
    constructor <;> decide +kernel
  have h : Consistent party := run_invariant (fun _ call h => h.call call) hnew calls
  exact ⟨h.ids, h.length, h.palette, h.colors, h.size, h.restartParty.2⟩

end Party
end Dreamwake.Simulation.Roster
