import Mathlib.Data.List.Basic
import Mathlib.Data.List.Range

/-!
# Counting in lists

How a count moves when the predicate changes at one element, and a list read
back through its indices.
-/

namespace FrostSshCa.Lib

universe u

variable {α : Type u}

theorem filterMap_getElem?_range (l : List α) :
    (List.range l.length).filterMap (fun i => l[i]?) = l := by
  induction l with
  | nil => rfl
  | cons a l ih =>
    rw [List.length_cons, List.range_succ_eq_map, List.filterMap_cons, List.filterMap_map]
    simpa [Function.comp_def] using ih

/-- Making the predicate true at one more element raises the count by one. -/
theorem countP_add_one [DecidableEq α] {p q : α → Bool} {a : α} : ∀ {l : List α}, l.Nodup → a ∈ l →
    p a = false → q a = true → (∀ b ∈ l, b ≠ a → q b = p b) → l.countP q = l.countP p + 1
  | [], _, h, _, _, _ => nomatch h
  | b :: l, hl, ha, hp, hq, h => by
    obtain ⟨hb, hl⟩ := List.nodup_cons.mp hl
    have hrest (hne : a ∉ l) : l.countP q = l.countP p :=
      List.countP_congr fun x hx => by rw [h x (List.mem_cons_of_mem _ hx) fun e => hne (e ▸ hx)]
    by_cases e : b = a
    · subst e
      simp only [List.countP_cons, hp, hq, if_true, hrest hb]
      simp
    · have hal : a ∈ l := by simpa [Ne.symm e] using ha
      have ih := countP_add_one hl hal hp hq fun x hx => h x (List.mem_cons_of_mem _ hx)
      simp only [List.countP_cons, h b (List.mem_cons_self ..) e, ih]
      omega

/-- The numbers from `u` on below `v`, counted among the first `n`. -/
theorem countP_finRange_between (u v n : Nat) :
    (List.finRange n).countP (fun k => decide (u ≤ k.val ∧ k.val < v)) = min v n - min u n := by
  induction n with
  | zero => simp
  | succ n ih =>
    have hmap : ((List.finRange n).map Fin.castSucc).countP
        (fun k => decide (u ≤ k.val ∧ k.val < v)) = min v n - min u n := by
      rw [List.countP_map]
      exact ih
    rw [List.finRange_succ_last, List.countP_append, hmap]
    simp only [List.countP_cons, List.countP_nil, decide_eq_true_eq, Fin.val_last]
    split <;> omega

/-- Where `filterMap g` has no repetitions, the value fixes the element. -/
theorem eq_of_filterMap_nodup {α β : Type*} {g : α → Option β} {l : List α}
    (h : (l.filterMap g).Nodup) {a b : α} {x : β} (ha : a ∈ l) (hb : b ∈ l) (ea : g a = some x)
    (eb : g b = some x) : a = b := by
  induction l with
  | nil => cases ha
  | cons c l ih =>
    have hmem (d : α) (hd : d ∈ l) (ed : g d = some x) : x ∈ l.filterMap g :=
      List.mem_filterMap.mpr ⟨d, hd, ed⟩
    have htail (e : g c = some x) : x ∉ l.filterMap g := by
      rw [List.filterMap_cons_some e] at h
      exact (List.nodup_cons.mp h).1
    have hrest : (l.filterMap g).Nodup := by
      cases e : g c with
      | none => rwa [List.filterMap_cons_none e] at h
      | some y =>
        rw [List.filterMap_cons_some e] at h
        exact (List.nodup_cons.mp h).2
    rcases List.mem_cons.mp ha with ha | ha <;> rcases List.mem_cons.mp hb with hb | hb
    · rw [ha, hb]
    · exact absurd (hmem b hb eb) (htail (ha ▸ ea))
    · exact absurd (hmem a ha ea) (htail (hb ▸ eb))
    · exact ih hrest ha hb

/-- Predicates that differ at one element of a list without repetition. -/
theorem countP_le_add_one {p q : α → Bool} {a : α} : ∀ {l : List α}, l.Nodup →
    (∀ x ∈ l, x ≠ a → p x = true → q x = true) → l.countP p ≤ l.countP q + 1
  | [], _, _ => Nat.zero_le _
  | x :: l, hl, h => by
    obtain ⟨hx, hl⟩ := List.nodup_cons.mp hl
    have htail := fun y hy => h y (List.mem_cons_of_mem x hy)
    rw [List.countP_cons, List.countP_cons]
    by_cases e : x = a
    · -- the others count as before
      subst e
      have hle : l.countP p ≤ l.countP q :=
        List.countP_mono_left fun y hy hp => htail y hy (fun e => hx (e ▸ hy)) hp
      split <;> omega
    · have ih := countP_le_add_one hl htail
      have hxx := h x (List.mem_cons_self ..) e
      by_cases hp : p x = true
      · rw [if_pos hp, if_pos (hxx hp)]
        omega
      · rw [if_neg hp]
        omega

end FrostSshCa.Lib
