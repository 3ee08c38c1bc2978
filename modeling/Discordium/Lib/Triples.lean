import Mathlib

/-!
# Lib — Triples

Pre- and postconditions of computations over a state that survives their errors.  A triple has a
postcondition for success, which sees the value, and one for failure: what a computation has done
before it fails counts.  The rules follow the constructs that computations are written with; a loop
has an invariant over its accumulator and the state.
-/

namespace Lib

variable {σ ε α β : Type}

/-- The state after a computation, whichever way it ends. -/
def finalState (m : EStateM ε σ α) (s : σ) : σ :=
  match m s with
  | .ok _ s => s
  | .error _ s => s

/-- A computation fails when a condition holds. -/
def refuse (error : ε) (cond : Prop) [Decidable cond] : EStateM ε σ Unit :=
  if cond then throw error else pure ()

/-- From a state with `P` the computation succeeds into `Q` or fails into `E`. -/
def Triple (P : σ → Prop) (m : EStateM ε σ α) (Q : α → σ → Prop) (E : σ → Prop) : Prop :=
  ∀ s, P s →
    match m s with
    | .ok a s => Q a s
    | .error _ s => E s

namespace Triple
variable {P P' E : σ → Prop} {Q Q' R : α → σ → Prop} {m : EStateM ε σ α} {error : ε}
  {items : List α}

/-- A triple with one postcondition says what the final state has. -/
theorem finalState (h : Triple P m (fun _ => E) E) {s : σ} (hs : P s) :
    E (finalState m s) := by
  have := h s hs
  unfold Lib.finalState
  split <;> simp_all

theorem weaken (h : Triple P m Q E) (hpre : ∀ s, P' s → P s)
    (hpost : ∀ a s, Q a s → Q' a s) : Triple P' m Q' E := by
  intro s hs
  have := h s (hpre s hs)
  split <;> simp_all

theorem pure {a : α} (h : ∀ s, P s → Q a s) : Triple P (Pure.pure a : EStateM ε σ α) Q E := h

theorem throw (h : ∀ s, P s → E s) : Triple P (MonadExcept.throw error : EStateM ε σ α) Q E := h

theorem bind {m : EStateM ε σ β} {f : β → EStateM ε σ α} {R : β → σ → Prop} (hm : Triple P m R E)
    (hf : ∀ b, Triple (R b) (f b) Q E) : Triple P (m >>= f) Q E := by
  intro s hs
  have h := hm s hs
  simp only [Bind.bind, EStateM.bind]
  cases hms : m s with
  | ok b s' =>
    rw [hms] at h
    exact hf b s' h
  | error e s' =>
    rw [hms] at h
    exact h

theorem get : Triple P (MonadState.get : EStateM ε σ σ) (fun a s => a = s ∧ P s) E :=
  fun _ hs => ⟨rfl, hs⟩

theorem modified {f : σ → σ} {Q : PUnit → σ → Prop} (h : ∀ s, P s → Q ⟨⟩ (f s)) :
    Triple P (modify f : EStateM ε σ PUnit) Q E := h

/-- What goes on past a guard. -/
theorem guarded {cond : Prop} [Decidable cond] (h : ∀ s, P s → E s) :
    Triple P (Lib.refuse error cond) (fun _ s => ¬cond ∧ P s) E := by
  intro s hs
  unfold Lib.refuse
  by_cases hc : cond
  · rw [if_pos hc]
    exact h s hs
  · rw [if_neg hc]
    exact ⟨hc, hs⟩

theorem refuse {cond : Prop} [Decidable cond] (h : ∀ s, P s → E s) :
    Triple P (Lib.refuse error cond) (fun _ => P) E :=
  (guarded h).weaken (fun _ hs => hs) fun _ _ hs => hs.2

/-- **Loop rule**, for a loop with an accumulator. -/
theorem foldlM {f : β → α → EStateM ε σ β} {I : β → σ → Prop}
    (hround : ∀ b, ∀ a ∈ items, Triple (I b) (f b a) I E) (b : β) :
    Triple (I b) (items.foldlM f b) I E := by
  induction items generalizing b with
  | nil => exact pure fun _ h => h
  | cons a items ih =>
    rw [List.foldlM_cons]
    exact bind (hround b a List.mem_cons_self) (ih fun b a ha =>
      hround b a (List.mem_cons_of_mem _ ha))

/-- **Loop rule**, for a loop without one. -/
theorem forM {f : α → EStateM ε σ PUnit} (hround : ∀ a ∈ items, Triple P (f a) (fun _ => P) E) :
    Triple P (items.forM f) (fun _ => P) E := by
  induction items with
  | nil => exact pure fun _ h => h
  | cons a items ih =>
    exact bind (hround a List.mem_cons_self) fun _ => ih fun a ha =>
      hround a (List.mem_cons_of_mem _ ha)

end Triple
end Lib
