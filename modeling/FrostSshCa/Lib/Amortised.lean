import FrostSshCa.Lib.Run

/-!
# Costs along a run

Every step of a machine has a cost, and a potential of the state pays for it: where a
step costs no more than the potential it gives up and the credit it brings, a run costs
no more than the potential at its start and the credit of its steps.
-/

namespace FrostSshCa.Lib

universe u v

variable {σ : Type u} {ε : Type v} {step : σ → ε → σ} {C : σ → ε → Prop} {I : σ → Prop}

/-- The costs of the steps of a run. -/
def total (step : σ → ε → σ) (cost : σ → ε → ℕ) : σ → List ε → ℕ
  | _, [] => 0
  | s, e :: es => cost s e + total step cost (step s e) es

@[simp] theorem total_nil (cost : σ → ε → ℕ) (s : σ) : total step cost s [] = 0 := rfl

@[simp] theorem total_cons (cost : σ → ε → ℕ) (s : σ) (e : ε) (es : List ε) :
    total step cost s (e :: es) = cost s e + total step cost (step s e) es := rfl

theorem total_append (cost : σ → ε → ℕ) (s : σ) (es fs : List ε) :
    total step cost s (es ++ fs) = total step cost s es + total step cost (run step s es) fs := by
  induction es generalizing s with
  | nil => simp
  | cons e es ih => rw [List.cons_append, total_cons, total_cons, run_cons, ih, Nat.add_assoc]

theorem total_add (cost credit : σ → ε → ℕ) (s : σ) (es : List ε) :
    total step (fun s e => cost s e + credit s e) s es =
      total step cost s es + total step credit s es := by
  induction es generalizing s with
  | nil => rfl
  | cons e es ih => rw [total_cons, total_cons, total_cons, ih]; omega

theorem total_mul (k : ℕ) (cost : σ → ε → ℕ) (s : σ) (es : List ε) :
    total step (fun s e => k * cost s e) s es = k * total step cost s es := by
  induction es generalizing s with
  | nil => rfl
  | cons e es ih => rw [total_cons, total_cons, ih, Nat.mul_add]

/-- **The rule of the potential**, under an invariant. -/
theorem total_le_of_potential (cost credit : σ → ε → ℕ) (φ : σ → ℕ)
    (hI : ∀ s e, I s → C s e → I (step s e))
    (hstep : ∀ s e, I s → C s e → cost s e + φ (step s e) ≤ φ s + credit s e)
    {es : List ε} {s : σ} (hi : I s) (hes : Along step C s es) :
    total step cost s es + φ (run step s es) ≤ φ s + total step credit s es := by
  induction es generalizing s with
  | nil => simp
  | cons e es ih =>
    have h1 := hstep s e hi hes.1
    have h2 := ih (hI s e hi hes.1) hes.2
    rw [total_cons, total_cons, run_cons]
    omega

end FrostSshCa.Lib
