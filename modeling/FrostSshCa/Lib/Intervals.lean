import Mathlib.Order.Interval.Set.Defs
import Mathlib.Order.Max
import Mathlib.Data.Set.Lattice

/-!
# Lists of closed intervals

The points a list of intervals covers, and lists in normal form: proper intervals, each
ending strictly before the next one starts. In a dense order a list in normal form is
determined by the points it covers.
-/

namespace FrostSshCa.Lib

universe u

variable {α : Type u} [LinearOrder α] {a b : α × α} {l m : List (α × α)} {x : α}

/-- The points covered by an interval of the list. -/
def points (l : List (α × α)) : Set α := {x | ∃ iv ∈ l, iv.1 ≤ x ∧ x ≤ iv.2}

@[simp] theorem points_nil : points ([] : List (α × α)) = ∅ := by
  ext x
  simp [points]

theorem mem_points_cons : x ∈ points (a :: l) ↔ (a.1 ≤ x ∧ x ≤ a.2) ∨ x ∈ points l := by
  simp [points]

theorem mem_points_append : x ∈ points (l ++ m) ↔ x ∈ points l ∨ x ∈ points m := by
  simp [points, or_and_right, exists_or]

theorem points_perm (h : l.Perm m) : points l = points m := by
  ext x
  exact ⟨fun ⟨iv, hm, hx⟩ => ⟨iv, h.mem_iff.mp hm, hx⟩, fun ⟨iv, hm, hx⟩ =>
    ⟨iv, h.mem_iff.mpr hm, hx⟩⟩

/-- Intervals inside intervals of the list add nothing. -/
theorem points_append_nested (h : ∀ iv ∈ m, ∃ o ∈ l, o.1 ≤ iv.1 ∧ iv.2 ≤ o.2) :
    points (m ++ l) = points l := by
  ext x
  rw [mem_points_append]
  refine ⟨fun hx => ?_, .inr⟩
  rcases hx with ⟨iv, hm, h1, h2⟩ | hx
  · obtain ⟨o, ho, h3, h4⟩ := h iv hm
    exact ⟨o, ho, h3.trans h1, h2.trans h4⟩
  · exact hx

/-! ## Normal form -/

/-- Proper intervals, each ending before the next one starts. -/
structure Separated (l : List (α × α)) : Prop where
  proper : ∀ iv ∈ l, iv.1 ≤ iv.2
  apart : l.Pairwise fun a b => a.2 < b.1

theorem Separated.nil : Separated ([] : List (α × α)) := ⟨nofun, .nil⟩

theorem separated_cons : Separated (a :: l) ↔ a.1 ≤ a.2 ∧ (∀ b ∈ l, a.2 < b.1) ∧ Separated l := by
  constructor
  · rintro ⟨hp, ha⟩
    obtain ⟨h1, h2⟩ := List.pairwise_cons.mp ha
    exact ⟨hp a (List.mem_cons_self ..), h1, fun b hb => hp b (List.mem_cons_of_mem _ hb), h2⟩
  · rintro ⟨hp, ha, hs⟩
    refine ⟨fun b hb => ?_, List.pairwise_cons.mpr ⟨ha, hs.apart⟩⟩
    rcases List.mem_cons.mp hb with rfl | hb
    · exact hp
    · exact hs.proper b hb

/-- The starts come in order too. -/
theorem Separated.sorted (h : Separated l) : l.Pairwise fun a b => a.1 ≤ b.1 :=
  h.apart.imp_of_mem fun ha _ hab => (h.proper _ ha).trans hab.le

/-- The rest of the list lies beyond the head. -/
theorem Separated.beyond (h : Separated (a :: l)) (hx : x ∈ points l) : a.2 < x := by
  obtain ⟨iv, hm, h1, -⟩ := hx
  exact ((separated_cons.mp h).2.1 iv hm).trans_le h1

/-- The first point is the start of the first interval. -/
theorem Separated.start_le (h : Separated (a :: l)) (hx : x ∈ points (a :: l)) : a.1 ≤ x := by
  rcases mem_points_cons.mp hx with ⟨h1, -⟩ | hx
  · exact h1
  · exact (separated_cons.mp h).1.trans (h.beyond hx).le

section Dense

variable [DenselyOrdered α]

/-- Right behind an interval is a gap. -/
theorem Separated.gap (h : Separated (a :: l)) {y : α} (hy : a.2 < y) :
    ∃ x, a.2 < x ∧ x ≤ y ∧ x ∉ points l := by
  cases l with
  | nil => exact ⟨y, hy, le_rfl, by simp⟩
  | cons b l =>
    obtain ⟨-, hab, hs⟩ := separated_cons.mp h
    obtain ⟨x, h1, h2⟩ := exists_between (lt_min hy (hab b (List.mem_cons_self ..)))
    exact ⟨x, h1, (h2.trans_le (min_le_left ..)).le,
      fun hx => absurd (hs.start_le hx) (not_le.mpr (h2.trans_le (min_le_right ..)))⟩

/-- Where the same points are covered from the same start, the first interval ends no
later. -/
theorem Separated.end_le (ha : Separated (a :: l)) (h1 : a.1 ≤ a.2) (hs : a.1 = b.1)
    (h : ∀ x ∈ points (b :: m), x ∈ points (a :: l)) : b.2 ≤ a.2 := by
  by_contra hlt
  obtain ⟨x, hx, hxy, hno⟩ := ha.gap (not_le.mp hlt)
  have hin : x ∈ points (b :: m) := mem_points_cons.mpr (.inl ⟨hs ▸ h1.trans hx.le, hxy⟩)
  rcases mem_points_cons.mp (h x hin) with ⟨-, h2⟩ | h2
  · exact absurd h2 (not_le.mpr hx)
  · exact hno h2

/-- **The normal form is unique.** -/
theorem Separated.ext (hl : Separated l) (hm : Separated m) (h : points l = points m) : l = m := by
  induction l generalizing m with
  | nil =>
    cases m with
    | nil => rfl
    | cons b m =>
      have hb : b.1 ∈ points (b :: m) :=
        mem_points_cons.mpr (.inl ⟨le_rfl, (separated_cons.mp hm).1⟩)
      rw [← h, points_nil] at hb
      exact absurd hb (Set.notMem_empty _)
  | cons a l ih =>
    obtain ⟨ha, -, hl'⟩ := separated_cons.mp hl
    have hstart : a.1 ∈ points (a :: l) := mem_points_cons.mpr (.inl ⟨le_rfl, ha⟩)
    cases m with
    | nil =>
      rw [h, points_nil] at hstart
      exact absurd hstart (Set.notMem_empty _)
    | cons b m =>
      obtain ⟨hb, -, hm'⟩ := separated_cons.mp hm
      have hstart' : b.1 ∈ points (b :: m) := mem_points_cons.mpr (.inl ⟨le_rfl, hb⟩)
      have e1 : a.1 = b.1 :=
        le_antisymm (hl.start_le (h ▸ hstart')) (hm.start_le (h ▸ hstart))
      have e2 : a.2 = b.2 :=
        le_antisymm (hm.end_le hb e1.symm fun x hx => h ▸ hx) (hl.end_le ha e1 fun x hx => h ▸ hx)
      have e : a = b := Prod.ext e1 e2
      subst e
      refine congrArg _ (ih hl' hm' (Set.ext fun x => ?_))
      have hiff : x ∈ points (a :: l) ↔ x ∈ points (a :: m) := by rw [h]
      rw [mem_points_cons, mem_points_cons] at hiff
      constructor
      · intro hx
        exact (hiff.mp (.inr hx)).resolve_left fun h' => absurd (hl.beyond hx) (not_lt.mpr h'.2)
      · intro hx
        exact (hiff.mpr (.inr hx)).resolve_left fun h' => absurd (hm.beyond hx) (not_lt.mpr h'.2)

end Dense

end FrostSshCa.Lib
