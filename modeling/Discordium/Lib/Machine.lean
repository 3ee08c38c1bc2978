import Mathlib

/-!
# Lib — Machine

Machines driven by calls.  A machine is a total step function on a state; a run is a list of calls,
and every choice the environment makes (which packet arrives, what a callback answers) is part of a
call.  The module has the run of such a machine, the runs whose calls all meet a condition in the
state they are made in, the invariant rules for both, and the machine that logs its own answers.
-/

namespace Lib

universe u v w

variable {σ : Type u} {κ : Type v} {ε : Type w}

/-! ### Runs -/

/-- The state after the calls of a run, made in order. -/
def run (step : σ → κ → σ) (s : σ) (calls : List κ) : σ :=
  calls.foldl step s

@[simp] theorem run_nil (step : σ → κ → σ) (s : σ) : run step s [] = s := rfl

@[simp] theorem run_cons (step : σ → κ → σ) (s : σ) (c : κ) (cs : List κ) :
    run step s (c :: cs) = run step (step s c) cs := rfl

theorem run_append (step : σ → κ → σ) (s : σ) (cs ds : List κ) :
    run step s (cs ++ ds) = run step (run step s cs) ds :=
  List.foldl_append

/-- Every call of the run meets `ok` in the state it is made in. -/
def Meets (step : σ → κ → σ) (ok : σ → κ → Prop) : σ → List κ → Prop
  | _, [] => True
  | s, c :: cs => ok s c ∧ Meets step ok (step s c) cs

instance Meets.decidable (step : σ → κ → σ) (ok : σ → κ → Prop) [∀ s c, Decidable (ok s c)] :
    ∀ (s : σ) (cs : List κ), Decidable (Meets step ok s cs)
  | _, [] => inferInstanceAs (Decidable True)
  | s, c :: cs =>
    have := Meets.decidable step ok (step s c) cs
    inferInstanceAs (Decidable (ok s c ∧ _))

variable {step : σ → κ → σ} {I : σ → Prop}

/-- **Invariant rule for conditioned runs.**  What a call that meets the condition preserves, a run
of such calls preserves. -/
theorem Meets.invariant {ok : σ → κ → Prop} (hstep : ∀ s c, I s → ok s c → I (step s c)) {s : σ}
    {cs : List κ} (hs : I s) (hm : Meets step ok s cs) : I (run step s cs) := by
  induction cs generalizing s with
  | nil => exact hs
  | cons c cs ih => exact ih (hstep s c hs hm.1) hm.2

/-- A condition on the calls alone. -/
theorem Meets.of_forall {ok : κ → Prop} {cs : List κ} (h : ∀ c ∈ cs, ok c) (s : σ) :
    Meets step (fun _ => ok) s cs := by
  induction cs generalizing s with
  | nil => trivial
  | cons c cs ih =>
    exact ⟨h c List.mem_cons_self, ih (fun d hd => h d (List.mem_cons_of_mem c hd)) (step s c)⟩

/-- **Invariant rule.**  What every call preserves, every run preserves. -/
theorem run_invariant
    (hstep : ∀ s c, I s → I (step s c)) {s : σ} (hs : I s) (cs : List κ) : I (run step s cs) := by
  induction cs generalizing s with
  | nil => exact hs
  | cons c cs ih => exact ih (hstep s c hs)

/-! ### Logged answers -/

/-- The machine that keeps the answers it has given, oldest first. -/
def logged (step : σ → κ → σ × ε) (s : σ × List ε) (c : κ) : σ × List ε :=
  ((step s.1 c).1, s.2 ++ [(step s.1 c).2])

@[simp] theorem logged_fst (step : σ → κ → σ × ε) (s : σ × List ε) (c : κ) :
    (logged step s c).1 = (step s.1 c).1 := rfl

end Lib
