import FrostSshCa.Lib.Run

/-!
# One step as a run of another machine

`Reaches step C s s'`: some run of `step` along `C` leads from `s` to `s'`. A
machine that does in one step what another does in several refines it when each
of its steps, seen through a projection, is such a run; then each of its runs is.
-/

namespace FrostSshCa.Lib

universe u v w

variable {σ : Type u} {ε : Type v} {step : σ → ε → σ} {C D : σ → ε → Prop} {I : σ → Prop}
  {s s' s'' : σ}

/-- A run along `C` from `s` to `s'`. -/
def Reaches (step : σ → ε → σ) (C : σ → ε → Prop) (s s' : σ) : Prop :=
  ∃ es, s' = run step s es ∧ Along step C s es

theorem Reaches.refl (s : σ) : Reaches step C s s := ⟨[], rfl, trivial⟩

theorem Reaches.of_eq (h : s' = s) : Reaches step C s s' := by
  rw [h]
  exact .refl s

theorem Reaches.single {e : ε} (h : C s e) : Reaches step C s (step s e) := ⟨[e], rfl, h, trivial⟩

theorem Reaches.trans (h : Reaches step C s s') (h' : Reaches step C s' s'') :
    Reaches step C s s'' := by
  obtain ⟨es, rfl, hes⟩ := h
  obtain ⟨fs, rfl, hfs⟩ := h'
  exact ⟨es ++ fs, (run_append s es fs).symm, (along_append s es fs).mpr ⟨hes, hfs⟩⟩

theorem Reaches.invariant (hstep : ∀ s e, I s → C s e → I (step s e)) (hi : I s)
    (h : Reaches step C s s') : I s' := by
  obtain ⟨es, rfl, hes⟩ := h
  exact Along.invariant hstep hi hes

variable {τ : Type w} {ι : Type*} {f : τ → ι → τ} {p : τ → σ} {J : τ → Prop}

/-- **The refinement rule**: `J` is known of the states of the finer machine. -/
theorem Reaches.refines (hJ : ∀ t i, J t → J (f t i))
    (h : ∀ t i, J t → Reaches step C (p t) (p (f t i))) {t : τ} (ht : J t) (is : List ι) :
    Reaches step C (p t) (p (run f t is)) := by
  induction is generalizing t with
  | nil => exact .refl _
  | cons i is ih => exact (h t i ht).trans (ih (hJ t i ht))

/-- The same for a loop over a list that changes what it finds in `l` only. -/
theorem Reaches.foldl {α : Type*} {g : τ → α → τ} {l : List α}
    (h : ∀ t, ∀ a ∈ l, J t → J (g t a) ∧ Reaches step C (p t) (p (g t a))) {t : τ} (ht : J t) :
    J (l.foldl g t) ∧ Reaches step C (p t) (p (l.foldl g t)) := by
  induction l generalizing t with
  | nil => exact ⟨ht, .refl _⟩
  | cons a l ih =>
    obtain ⟨h1, h2⟩ := h t a (List.mem_cons_self ..) ht
    obtain ⟨h3, h4⟩ := ih (fun t b hb => h t b (List.mem_cons_of_mem _ hb)) h1
    exact ⟨h3, h2.trans h4⟩

end FrostSshCa.Lib
