import Mathlib.Data.List.Nodup
import Mathlib.Logic.Function.Basic
import Mathlib.Algebra.GroupWithZero.Nat

/-!
# Delimited text and keyed maps

A text of lines, each ended by a separator, and the lines read back from it; a line cut in
two at the first separator; and a map built by inserting the entries of a list one after
the other. With distinct keys the order of the entries does not matter.
-/

namespace FrostSshCa.Lib

universe u v

/-! ## Lines -/

section Lines

variable {α : Type u}

/-- The lines, each ended by the separator. -/
def unlines (sep : α) (ls : List (List α)) : List α := ls.flatMap fun l => l ++ [sep]

@[simp] theorem unlines_nil (sep : α) : unlines sep [] = [] := rfl

theorem unlines_cons (sep : α) (l : List α) (ls : List (List α)) :
    unlines sep (l :: ls) = l ++ sep :: unlines sep ls := by
  show (l ++ [sep]) ++ unlines sep ls = _
  rw [List.append_assoc]
  rfl

theorem length_unlines (sep : α) (ls : List (List α)) :
    (unlines sep ls).length = (ls.map fun l => l.length + 1).sum := by
  induction ls with
  | nil => rfl
  | cons l ls ih =>
    rw [unlines_cons, List.length_append, List.length_cons, ih, List.map_cons, List.sum_cons]
    omega

variable [DecidableEq α] {sep : α}

/-- The lines of a text; the last one may lack its separator. -/
def splitLines (sep : α) : List α → List (List α)
  | [] => []
  | a :: as =>
    if a = sep then [] :: splitLines sep as
    else match splitLines sep as with
      | [] => [[a]]
      | l :: ls => (a :: l) :: ls

/-- What comes before the first separator, and what follows it, if there is one. -/
def cutAt (sep : α) : List α → List α × Option (List α)
  | [] => ([], none)
  | a :: as => if a = sep then ([], some as) else (a :: (cutAt sep as).1, (cutAt sep as).2)

theorem splitLines_line {l : List α} (h : sep ∉ l) (r : List α) :
    splitLines sep (l ++ sep :: r) = l :: splitLines sep r := by
  induction l with
  | nil => exact if_pos rfl
  | cons a l ih =>
    have ha : a ≠ sep := fun e => h (e ▸ List.mem_cons_self ..)
    have hl : sep ∉ l := fun hm => h (List.mem_cons_of_mem _ hm)
    rw [List.cons_append, splitLines, if_neg ha, ih hl]

theorem splitLines_last {l : List α} (hne : l ≠ []) (h : sep ∉ l) : splitLines sep l = [l] := by
  induction l with
  | nil => exact absurd rfl hne
  | cons a l ih =>
    have ha : a ≠ sep := fun e => h (e ▸ List.mem_cons_self ..)
    rw [splitLines, if_neg ha]
    cases l with
    | nil => rfl
    | cons b l => rw [ih (List.cons_ne_nil b l) fun hm => h (List.mem_cons_of_mem _ hm)]

/-- **Lines come back as they were written.** -/
theorem splitLines_unlines {ls : List (List α)} (h : ∀ l ∈ ls, sep ∉ l) :
    splitLines sep (unlines sep ls) = ls := by
  induction ls with
  | nil => rfl
  | cons l ls ih =>
    rw [unlines_cons, splitLines_line (h l (List.mem_cons_self ..)),
      ih fun m hm => h m (List.mem_cons_of_mem _ hm)]

/-- Two texts together have no more lines than each on its own. -/
theorem length_splitLines_append (a b : List α) :
    (splitLines sep (a ++ b)).length ≤ (splitLines sep a).length + (splitLines sep b).length := by
  induction a with
  | nil => simp [splitLines]
  | cons x a ih =>
    rw [List.cons_append, splitLines, splitLines]
    by_cases hx : x = sep
    · rw [if_pos hx, if_pos hx]
      simp only [List.length_cons]
      omega
    · rw [if_neg hx, if_neg hx]
      cases ha : splitLines sep a with
      | nil =>
        rw [ha] at ih
        cases hab : splitLines sep (a ++ b) with
        | nil => simp
        | cons l ls => simp only [hab, List.length_cons, List.length_nil] at ih ⊢; omega
      | cons m ms =>
        rw [ha] at ih
        cases hab : splitLines sep (a ++ b) with
        | nil => simp only [List.length_cons, List.length_nil]; omega
        | cons l ls => simp only [hab, List.length_cons] at ih ⊢; omega

/-- What is cut off a line with its separator is one line at most. -/
theorem length_splitLines_take {l : List α} (h : sep ∉ l) (n : Nat) :
    (splitLines sep ((l ++ [sep]).take n)).length ≤ 1 := by
  rcases Nat.lt_or_ge l.length n with hn | hn
  · rw [List.take_of_length_le (by simp; omega), splitLines_line h]
    exact Nat.le_refl 1
  · rw [List.take_append_of_le_length hn]
    cases hl : l.take n with
    | nil => exact Nat.zero_le 1
    | cons a as =>
      rw [splitLines_last (List.cons_ne_nil a as)]
      · exact Nat.le_refl 1
      · rw [← hl]
        exact fun hm => h (List.mem_of_mem_take hm)

/-- No separator is left in a line. -/
theorem sep_not_mem_line {text : List α} : ∀ l ∈ splitLines sep text, sep ∉ l := by
  induction text with
  | nil => exact List.forall_mem_nil _
  | cons a as ih =>
    rw [splitLines]
    by_cases ha : a = sep
    · rw [if_pos ha]
      exact List.forall_mem_cons.mpr ⟨List.not_mem_nil, ih⟩
    · rw [if_neg ha]
      split
      · intro l hl
        rw [List.mem_singleton.mp hl, List.mem_singleton]
        exact Ne.symm ha
      · next m ms e =>
        rw [e] at ih
        obtain ⟨hm, hms⟩ := List.forall_mem_cons.mp ih
        refine List.forall_mem_cons.mpr ⟨?_, hms⟩
        rw [List.mem_cons]
        exact not_or.mpr ⟨Ne.symm ha, hm⟩

theorem cutAt_append {l : List α} (h : sep ∉ l) (r : List α) :
    cutAt sep (l ++ sep :: r) = (l, some r) := by
  induction l with
  | nil => exact if_pos rfl
  | cons a l ih =>
    have ha : a ≠ sep := fun e => h (e ▸ List.mem_cons_self ..)
    have hl : sep ∉ l := fun hm => h (List.mem_cons_of_mem _ hm)
    rw [List.cons_append, cutAt, if_neg ha, ih hl]

end Lines

/-! ## Maps -/

section Maps

variable {κ : Type u} {β : Type v} [DecidableEq κ]

/-- One entry more; an entry of the same key is replaced. -/
def addEntry (m : κ → Option β) (e : κ × β) : κ → Option β := Function.update m e.1 (some e.2)

/-- An insertion adds its entry and leaves those of other keys. -/
theorem addEntry_eq_some {m : κ → Option β} {e : κ × β} (h : m e.1 = none) (k : κ) (b : β) :
    addEntry m e k = some b ↔ m k = some b ∨ e = (k, b) := by
  unfold addEntry
  by_cases hk : k = e.1
  · subst hk
    rw [Function.update_self, Option.some.injEq, h]
    refine ⟨fun hb => .inr (by rw [← hb]), fun hb => ?_⟩
    rcases hb with hb | hb
    · cases hb
    · exact congrArg Prod.snd hb
  · rw [Function.update_of_ne hk]
    refine ⟨.inl, fun hb => ?_⟩
    rcases hb with hb | hb
    · exact hb
    · exact absurd (congrArg Prod.fst hb).symm hk

/-- The entries of a list with distinct keys, on top of a map without them. -/
theorem foldl_addEntry_eq_some {l : List (κ × β)} {m : κ → Option β}
    (hd : (l.map Prod.fst).Nodup) (hm : ∀ e ∈ l, m e.1 = none) (k : κ) (b : β) :
    l.foldl addEntry m k = some b ↔ m k = some b ∨ (k, b) ∈ l := by
  induction l generalizing m with
  | nil => simp
  | cons e l ih =>
    rw [List.map_cons, List.nodup_cons] at hd
    have he : m e.1 = none := hm e (List.mem_cons_self ..)
    have hrest : ∀ x ∈ l, addEntry m e x.1 = none := by
      intro x hx
      have hne : x.1 ≠ e.1 := fun h => hd.1 (h ▸ List.mem_map_of_mem hx)
      unfold addEntry
      rw [Function.update_of_ne hne]
      exact hm x (List.mem_cons_of_mem _ hx)
    rw [List.foldl_cons, ih hd.2 hrest, addEntry_eq_some he, List.mem_cons, or_assoc]
    exact or_congr_right (or_congr_left ⟨Eq.symm, Eq.symm⟩)

end Maps

end FrostSshCa.Lib
