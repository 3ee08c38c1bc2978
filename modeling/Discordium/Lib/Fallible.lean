import Mathlib

/-!
# Lib — Fallible

Computations that end in a value or an error: what a sequence of them that succeeds went through,
and the loops over a list that stop at the first error.  Two rules say what a loop does from what
its rounds do: a preorder all of them move along, and a fact each of them settles for its own item.
-/

namespace Lib

variable {ε α β σ : Type} {x : Except ε α} {f : α → Except ε β} {error : ε} {cond : Prop}
  {round : σ → α → Except ε σ} {as : List α} {s s' : σ}

theorem bind_eq_ok {b : β} :
    x.bind f = .ok b ↔ ∃ a, x = .ok a ∧ f a = .ok b := by
  cases x <;> simp [Except.bind]

theorem map_eq_ok {f : α → β} {b : β} :
    x.map f = .ok b ↔ ∃ a, x = .ok a ∧ f a = b := by
  cases x <;> simp [Except.map]

/-- An error that neither part ends in. -/
theorem bind_ne_error (hx : x ≠ .error error)
    (hf : ∀ a, x = .ok a → f a ≠ .error error) : x.bind f ≠ .error error := by
  cases x with
  | error e => exact fun h => hx (by cases h; rfl)
  | ok a => exact hf a rfl

theorem map_ne_error {f : α → β} (hx : x ≠ .error error) :
    x.map f ≠ .error error := by
  cases x with
  | error e => exact fun h => hx (by cases h; rfl)
  | ok a => exact nofun

/-- A condition that must hold to go on. -/
def require (error : ε) (cond : Prop) [Decidable cond] : Except ε Unit :=
  if cond then .ok () else .error error

theorem require_eq_ok [Decidable cond] {u : Unit} :
    require error cond = .ok u ↔ cond := by
  unfold require
  split_ifs with h <;> simp [h]

theorem require_of [Decidable cond] (h : cond) : require error cond = .ok () :=
  if_pos h

theorem require_of_not [Decidable cond] (h : ¬cond) :
    require error cond = .error error :=
  if_neg h

/-- A value that must be there to go on. -/
def obtainOr (error : ε) : Option α → Except ε α
  | some a => .ok a
  | none => .error error

theorem obtainOr_eq_ok {x : Option α} {a : α} : obtainOr error x = .ok a ↔ x = some a := by
  cases x <;> simp [obtainOr]

/-- A loop over a list that stops at the first error. -/
def loop (round : σ → α → Except ε σ) : σ → List α → Except ε σ
  | s, [] => .ok s
  | s, a :: as => (round s a).bind fun s => loop round s as

/-- **Loop rule.**  A preorder that every round moves along, the loop moves along. -/
theorem loop_rel {R : σ → σ → Prop} (hrefl : ∀ s, R s s) (htrans : ∀ {a b c}, R a b → R b c → R a c)
    (hround : ∀ s a s', round s a = .ok s' → R s s') (h : loop round s as = .ok s') : R s s' := by
  induction as generalizing s with
  | nil =>
    cases h
    exact hrefl _
  | cons a as ih =>
    obtain ⟨s₁, h₁, h₂⟩ := bind_eq_ok.mp h
    exact htrans (hround s a s₁ h₁) (ih h₂)

/-- An error that no round ends in. -/
theorem loop_ne_error (hround : ∀ s, ∀ a ∈ as, round s a ≠ .error error) (s : σ) :
    loop round s as ≠ .error error := by
  induction as generalizing s with
  | nil => exact nofun
  | cons a as ih =>
    exact bind_ne_error (hround s a List.mem_cons_self) fun s' _ =>
      ih (fun s b hb => hround s b (List.mem_cons_of_mem _ hb)) s'

/-- A loop whose rounds leave the state as it is. -/
theorem loop_eq_self (hround : ∀ a ∈ as, round s a = .ok s) : loop round s as = .ok s := by
  induction as with
  | nil => rfl
  | cons a as ih =>
    rw [loop, hround a List.mem_cons_self]
    exact ih fun b hb => hround b (List.mem_cons_of_mem _ hb)

/-- **Each round's effect lasts.**  What a round makes true of its own item, and no other round
undoes, is true of every item after the loop. -/
theorem loop_each {Q : α → σ → Prop} (hset : ∀ s a s', round s a = .ok s' → Q a s')
    (hkeep : ∀ s a b s', round s a = .ok s' → Q b s → Q b s') (h : loop round s as = .ok s') (b : α)
    (hb : b ∈ as ∨ Q b s) : Q b s' := by
  induction as generalizing s with
  | nil =>
    cases h
    exact hb.resolve_left List.not_mem_nil
  | cons a as ih =>
    obtain ⟨s₁, h₁, h₂⟩ := bind_eq_ok.mp h
    refine ih h₂ ?_
    rcases hb with hb | hb
    · rcases List.mem_cons.mp hb with rfl | hb
      · exact .inr (hset s b s₁ h₁)
      · exact .inl hb
    · exact .inr (hkeep s a b s₁ h₁ hb)

end Lib
