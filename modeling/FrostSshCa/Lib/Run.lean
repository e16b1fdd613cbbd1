import Mathlib.Order.Basic
import Mathlib.Logic.Relation

/-!
# Runs of an event-driven machine

A machine is a total function `step : σ → ε → σ`. `run` folds it over a list of
events, `Reach` is reachability from a set of initial states, and
`Along step C s es` says that every step of the run of `es` from `s` meets the
condition `C` on the state before the step and the event taken. The rules here
package the inductions: an invariant is proved one step at a time, either
outright or along runs whose steps all meet a condition.
-/

namespace FrostSshCa.Lib

universe u v w

variable {σ : Type u} {ε : Type v}

/-- The state after the events `es`. -/
def run (step : σ → ε → σ) (s : σ) (es : List ε) : σ := es.foldl step s

/-- Every step of the run meets `C`. -/
def Along (step : σ → ε → σ) (C : σ → ε → Prop) : σ → List ε → Prop
  | _, [] => True
  | s, e :: es => C s e ∧ Along step C (step s e) es

/-- `s` is reached from an initial state. -/
def Reach (step : σ → ε → σ) (init : σ → Prop) (s : σ) : Prop :=
  ∃ s₀ es, init s₀ ∧ s = run step s₀ es

variable {step : σ → ε → σ} {C D : σ → ε → Prop} {I : σ → Prop}

@[simp] theorem run_nil (s : σ) : run step s [] = s := rfl

@[simp] theorem run_cons (s : σ) (e : ε) (es : List ε) :
    run step s (e :: es) = run step (step s e) es := rfl

theorem run_append (s : σ) (es fs : List ε) :
    run step s (es ++ fs) = run step (run step s es) fs := List.foldl_append ..

theorem run_concat (s : σ) (es : List ε) (e : ε) :
    run step s (es ++ [e]) = step (run step s es) e := by
  rw [run_append, run_cons, run_nil]

@[simp] theorem along_nil (s : σ) : Along step C s [] := trivial

@[simp] theorem along_cons (s : σ) (e : ε) (es : List ε) :
    Along step C s (e :: es) ↔ C s e ∧ Along step C (step s e) es := Iff.rfl

theorem along_append (s : σ) (es fs : List ε) :
    Along step C s (es ++ fs) ↔ Along step C s es ∧ Along step C (run step s es) fs := by
  induction es generalizing s with
  | nil => simp
  | cons e es ih => simp [ih, and_assoc]

theorem along_concat (s : σ) (es : List ε) (e : ε) :
    Along step C s (es ++ [e]) ↔ Along step C s es ∧ C (run step s es) e := by
  simp [along_append]

instance instDecidableAlong [∀ s e, Decidable (C s e)] :
    ∀ (s : σ) (es : List ε), Decidable (Along step C s es)
  | _, [] => isTrue trivial
  | s, e :: es =>
    have := instDecidableAlong (step s e) es
    inferInstanceAs (Decidable (C s e ∧ Along step C (step s e) es))

theorem Along.mono (h : ∀ s e, C s e → D s e) :
    ∀ {es : List ε} {s : σ}, Along step C s es → Along step D s es
  | [], _, _ => trivial
  | _ :: _, _, ⟨h1, h2⟩ => ⟨h _ _ h1, Along.mono h h2⟩

theorem Along.and {es : List ε} {s : σ} (h : Along step C s es) (h' : Along step D s es) :
    Along step (fun s e => C s e ∧ D s e) s es := by
  induction es generalizing s with
  | nil => trivial
  | cons e es ih => exact ⟨⟨h.1, h'.1⟩, ih h.2 h'.2⟩

/-- A condition met by every step is met along every run. -/
theorem Along.of_forall (h : ∀ s e, C s e) : ∀ {es : List ε} {s : σ}, Along step C s es
  | [], _ => trivial
  | _ :: _, _ => ⟨h _ _, Along.of_forall h⟩

/-- A condition on the events alone. -/
theorem Along.of_mem : ∀ {es : List ε} {s : σ}, (∀ e ∈ es, ∀ s, C s e) → Along step C s es
  | [], _, _ => trivial
  | e :: _, s, h =>
    ⟨h e (List.mem_cons_self ..) s, Along.of_mem fun e he => h e (List.mem_cons_of_mem _ he)⟩

/-- A machine seen through `p` runs as another. -/
theorem run_map {τ : Type w} {f : τ → ε → τ} {p : σ → τ} (h : ∀ s e, p (step s e) = f (p s) e)
    (s : σ)
    (es : List ε) : p (run step s es) = run f (p s) es := by
  induction es generalizing s with
  | nil => rfl
  | cons e es ih => rw [run_cons, run_cons, ih, h]

theorem along_map {τ : Type w} {f : τ → ε → τ} {p : σ → τ} {C : τ → ε → Prop}
    (h : ∀ s e, p (step s e) = f (p s) e) (s : σ) (es : List ε) :
    Along step (fun s e => C (p s) e) s es ↔ Along f C (p s) es := by
  induction es generalizing s with
  | nil => exact Iff.rfl
  | cons e es ih => rw [along_cons, along_cons, ih, h]

/-- **The guarded invariant rule**: an invariant kept by every step that meets
`C` holds at the end of every run along `C`. -/
theorem Along.invariant (hstep : ∀ s e, I s → C s e → I (step s e)) {es : List ε} {s : σ}
    (hi : I s) (h : Along step C s es) : I (run step s es) := by
  induction es generalizing s with
  | nil => exact hi
  | cons e es ih => exact ih (hstep _ _ hi h.1) h.2

/-- The invariant can be used to establish the condition of each later step. -/
theorem Along.strengthen (hstep : ∀ s e, I s → C s e → I (step s e)) {es : List ε} {s : σ}
    (hi : I s) (h : Along step C s es) : Along step (fun s e => I s ∧ C s e) s es := by
  induction es generalizing s with
  | nil => trivial
  | cons e es ih => exact ⟨⟨hi, h.1⟩, ih (hstep _ _ hi h.1) h.2⟩

/-- Each step is taken from a state the run has passed. -/
theorem Along.positions {es : List ε} {s : σ} (h : Along step C s es) :
    Along step (fun s' e => C s' e ∧ ∃ pre post, es = pre ++ e :: post ∧ s' = run step s pre)
      s es := by
  induction es generalizing s with
  | nil => trivial
  | cons e es ih =>
    refine ⟨⟨h.1, [], es, rfl, rfl⟩, (ih h.2).mono ?_⟩
    rintro s' e' ⟨hc, pre, post, he, hs⟩
    exact ⟨hc, e :: pre, post, by rw [he, List.cons_append], hs⟩

/-- **The exact condition**: where `C` says, of each step from a good state, whether the
next state is good, it says of a run whether all its states are. `E` is known of the
events, `I` of the states. -/
theorem along_iff_forall {G : σ → Prop} {E : ε → Prop} (hI : ∀ s e, I s → E e → I (step s e))
    (hG : ∀ s e, I s → E e → G s → (C s e ↔ G (step s e))) {es : List ε} (hE : ∀ e ∈ es, E e)
    {s : σ}
    (hi : I s) (hg : G s) :
    Along step C s es ↔ ∀ es₁ es₂, es = es₁ ++ es₂ → G (run step s es₁) := by
  induction es generalizing s with
  | nil =>
    refine ⟨fun _ es₁ es₂ e => ?_, fun _ => trivial⟩
    rw [(List.append_eq_nil_iff.mp e.symm).1]
    exact hg
  | cons e es ih =>
    have he := hE e (List.mem_cons_self ..)
    have hes : ∀ e ∈ es, E e := fun x hx => hE x (List.mem_cons_of_mem _ hx)
    constructor
    · rintro ⟨h1, h2⟩ es₁ es₂ h
      cases es₁ with
      | nil => exact hg
      | cons x es₁ =>
        cases h
        exact (ih hes (hI s e hi he) ((hG s e hi he hg).mp h1)).mp h2 es₁ es₂ rfl
    · intro h
      have h1 : G (step s e) := h [e] es rfl
      exact ⟨(hG s e hi he hg).mpr h1, (ih hes (hI s e hi he) h1).mpr fun es₁ es₂ h' =>
        h (e :: es₁) es₂ (by rw [h', List.cons_append])⟩

/-- Two conditions that agree on good states agree along runs, where they keep states good.
`E` is known of the events. -/
theorem along_congr {E : ε → Prop} (hC : ∀ s e, I s → E e → (C s e ↔ D s e))
    (hI : ∀ s e, I s → E e → D s e → I (step s e)) {es : List ε} (hE : ∀ e ∈ es, E e) {s : σ}
    (hi : I s) : Along step C s es ↔ Along step D s es := by
  induction es generalizing s with
  | nil => exact Iff.rfl
  | cons e es ih =>
    have he := hE e (List.mem_cons_self ..)
    have hes : ∀ e ∈ es, E e := fun x hx => hE x (List.mem_cons_of_mem _ hx)
    rw [along_cons, along_cons, hC s e hi he]
    exact and_congr_right fun hd => ih hes (hI s e hi he hd)

/-- **The invariant rule**: kept by every step, it holds after every run. -/
theorem run_invariant (hstep : ∀ s e, I s → I (step s e)) {es : List ε} {s : σ} (hi : I s) :
    I (run step s es) :=
  Along.invariant (C := fun _ _ => True) (fun s e hi _ => hstep s e hi) hi
    (Along.of_forall fun _ _ => trivial)

theorem Reach.invariant {init : σ → Prop} (h0 : ∀ s, init s → I s)
    (hstep : ∀ s e, I s → I (step s e)) {s : σ} (h : Reach step init s) : I s := by
  obtain ⟨s₀, es, hi, rfl⟩ := h
  exact run_invariant hstep (h0 _ hi)

theorem Reach.next {init : σ → Prop} {s : σ} (h : Reach step init s) (e : ε) :
    Reach step init (step s e) := by
  obtain ⟨s₀, es, hi, rfl⟩ := h
  exact ⟨s₀, es ++ [e], hi, (run_concat s₀ es e).symm⟩

/-! ## Folds over a list of updates -/

/-- An invariant kept by each update of a fold is kept by the fold. -/
theorem foldl_invariant {α : Type w} {f : σ → α → σ} {l : List α}
    (h : ∀ s, ∀ a ∈ l, I s → I (f s a)) {s : σ} (hi : I s) : I (l.foldl f s) := by
  induction l generalizing s with
  | nil => exact hi
  | cons a l ih =>
    exact ih (fun s b hb => h s b (List.mem_cons_of_mem _ hb)) (h s a (List.mem_cons_self ..) hi)

/-- A projection left alone by each update of a fold is left alone by the fold. -/
theorem foldl_frame {α : Type w} {β : Sort*} {f : σ → α → σ} (p : σ → β) {l : List α}
    (h : ∀ s, ∀ a ∈ l, p (f s a) = p s) (s : σ) : p (l.foldl f s) = p s :=
  foldl_invariant (I := fun s' => p s' = p s) (fun s' a ha e => (h s' a ha).trans e) rfl

end FrostSshCa.Lib
