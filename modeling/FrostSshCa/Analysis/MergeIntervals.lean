import FrostSshCa.Lib.Intervals
import Mathlib.Algebra.Order.BigOperators.Group.List
import Mathlib.Algebra.Order.Field.Basic
import Mathlib.Algebra.Order.Ring.Rat
import Mathlib.Tactic.Linarith

/-!
# Busy time

`merge_intervals` of `analyze_checkpoint_log.py`: the intervals in which a process was busy,
sorted by their start and merged in one pass, and the time they cover. A time is a number
of seconds.
-/

namespace FrostSshCa.Analysis

open Lib

/-- `(start_dt, end_dt)` -/
abbrev Interval := ℚ × ℚ

/-- `(e - s).total_seconds() * 1000.0` -/
def lengthMs (iv : Interval) : ℚ := (iv.2 - iv.1) * 1000

/-- `sorted(intervals, key=lambda iv: iv[0])` -/
def ordered (intervals : List Interval) : List Interval :=
  intervals.mergeSort fun a b => a.1 ≤ b.1

/-- The loop over `ordered[1:]`; `last` is `merged[-1]` and `done` what stands before it. -/
def mergeLoop (done : List Interval) (last : Interval) : List Interval → List Interval
  | [] => done ++ [last]
  | (start, stop) :: rest =>
    if start ≤ last.2 then
      if stop > last.2 then mergeLoop done (last.1, stop) rest
      else mergeLoop done last rest
    else mergeLoop (done ++ [last]) (start, stop) rest

/-- `merge_intervals` -/
def mergeIntervals (intervals : List Interval) : List Interval × ℚ :=
  match ordered intervals with
  | [] => ([], 0)
  | first :: rest =>
    (mergeLoop [] first rest, ((mergeLoop [] first rest).map lengthMs).sum)

variable {done rest intervals : List Interval} {last iv : Interval}

theorem ordered_perm (intervals : List Interval) : (ordered intervals).Perm intervals :=
  List.mergeSort_perm ..

theorem ordered_sorted (intervals : List Interval) :
    (ordered intervals).Pairwise fun a b => a.1 ≤ b.1 := by
  have h : (ordered intervals).Pairwise fun a b => decide (a.1 ≤ b.1) = true :=
    List.pairwise_mergeSort
      (fun a b c hab hbc => by
        simp only [decide_eq_true_eq] at *
        exact hab.trans hbc)
      (fun a b => by
        simp only [Bool.or_eq_true, decide_eq_true_eq]
        exact le_total a.1 b.1) intervals
  exact h.imp of_decide_eq_true

/-! ## The loop -/

/-- What the loop keeps: the result so far is in normal form, and what is left starts no
earlier than its last interval. -/
structure LoopInv (done : List Interval) (last : Interval) (rest : List Interval) : Prop where
  merged : Separated (done ++ [last])
  proper : ∀ iv ∈ rest, iv.1 ≤ iv.2
  later : ∀ iv ∈ rest, last.1 ≤ iv.1
  sorted : rest.Pairwise fun a b => a.1 ≤ b.1

theorem separated_snoc : Separated (done ++ [last]) ↔
    Separated done ∧ last.1 ≤ last.2 ∧ ∀ a ∈ done, a.2 < last.1 := by
  constructor
  · rintro ⟨hp, ha⟩
    obtain ⟨h1, -, h2⟩ := List.pairwise_append.mp ha
    exact ⟨⟨fun a h => hp a (List.mem_append_left _ h), h1⟩, hp last (by simp),
      fun a h => h2 a h last (List.mem_singleton_self _)⟩
  · rintro ⟨⟨hp, ha⟩, hl, hd⟩
    refine ⟨fun a h => ?_, List.pairwise_append.mpr ⟨ha, List.pairwise_singleton ..,
      fun a h b hb => ?_⟩⟩
    · rcases List.mem_append.mp h with h | h
      · exact hp a h
      · rw [List.mem_singleton.mp h]
        exact hl
    · rw [List.mem_singleton.mp hb]
      exact hd a h

/-- The last interval is stretched to the end of the next one. -/
theorem LoopInv.stretch (h : LoopInv done last (iv :: rest)) (hend : iv.2 > last.2) :
    LoopInv done (last.1, iv.2) rest := by
  obtain ⟨hd, hl, hb⟩ := separated_snoc.mp h.merged
  exact ⟨separated_snoc.mpr ⟨hd, hl.trans hend.le, hb⟩, (List.forall_mem_cons.mp h.proper).2,
    (List.forall_mem_cons.mp h.later).2, (List.pairwise_cons.mp h.sorted).2⟩

/-- The next interval lies inside the last one. -/
theorem LoopInv.skip (h : LoopInv done last (iv :: rest)) : LoopInv done last rest :=
  ⟨h.merged, (List.forall_mem_cons.mp h.proper).2, (List.forall_mem_cons.mp h.later).2,
    (List.pairwise_cons.mp h.sorted).2⟩

/-- The next interval starts behind the last one. -/
theorem LoopInv.push (h : LoopInv done last (iv :: rest)) (hstart : last.2 < iv.1) :
    LoopInv (done ++ [last]) iv rest := by
  obtain ⟨-, hl, hb⟩ := separated_snoc.mp h.merged
  obtain ⟨hiv, hproper⟩ := List.forall_mem_cons.mp h.proper
  obtain ⟨hle, hsorted⟩ := List.pairwise_cons.mp h.sorted
  refine ⟨separated_snoc.mpr ⟨h.merged, hiv, fun a ha => ?_⟩, hproper, hle, hsorted⟩
  rcases List.mem_append.mp ha with ha | ha
  · exact (hb a ha).trans_le (hl.trans hstart.le)
  · rw [List.mem_singleton.mp ha]
    exact hstart

theorem mergeLoop_separated (h : LoopInv done last rest) :
    Separated (mergeLoop done last rest) := by
  induction rest generalizing done last with
  | nil => exact h.merged
  | cons iv rest ih =>
    unfold mergeLoop
    split
    · split
      · next hend => exact ih (h.stretch hend)
      · exact ih h.skip
    · next hstart => exact ih (h.push (not_le.mp hstart))

/-- The merged prefix and what is left cover the same points all along. -/
theorem mergeLoop_points (h : LoopInv done last rest) :
    points (mergeLoop done last rest) = points (done ++ last :: rest) := by
  induction rest generalizing done last with
  | nil => rfl
  | cons iv rest ih =>
    have hlater := h.later iv (List.mem_cons_self ..)
    have hlast := h.merged.proper last (by simp)
    unfold mergeLoop
    split
    · next hstart =>
      split
      · next hend =>
        rw [ih (h.stretch hend)]
        ext x
        simp only [mem_points_append, mem_points_cons]
        refine or_congr_right ?_
        rw [← or_assoc]
        refine or_congr_left ⟨fun ⟨h1, h2⟩ => ?_, fun hx => ?_⟩
        · by_cases hx : x ≤ last.2
          · exact .inl ⟨h1, hx⟩
          · exact .inr ⟨hstart.trans (not_le.mp hx).le, h2⟩
        · rcases hx with ⟨h1, h2⟩ | ⟨h1, h2⟩
          · exact ⟨h1, h2.trans (le_of_lt hend)⟩
          · exact ⟨hlater.trans h1, h2⟩
      · next hend =>
        rw [ih h.skip]
        ext x
        simp only [mem_points_append, mem_points_cons]
        refine or_congr_right ⟨fun hx => ?_, fun hx => ?_⟩
        · exact hx.imp_right .inr
        · rcases hx with hx | ⟨h1, h2⟩ | hx
          · exact .inl hx
          · exact .inl ⟨hlater.trans h1, h2.trans (not_lt.mp hend)⟩
          · exact .inr hx
    · next hstart =>
      rw [ih (h.push (not_le.mp hstart)), List.append_assoc, List.singleton_append]

/-- Each step adds no more than the interval it takes. -/
theorem mergeLoop_total (h : LoopInv done last rest) :
    ((mergeLoop done last rest).map lengthMs).sum ≤
    ((done ++ last :: rest).map lengthMs).sum := by
  induction rest generalizing done last with
  | nil => exact le_rfl
  | cons iv rest ih =>
    have hiv := h.proper iv (List.mem_cons_self ..)
    unfold mergeLoop
    split
    · next hstart =>
      split
      · next hend =>
        refine (ih (h.stretch hend)).trans ?_
        simp only [List.map_append, List.map_cons, List.sum_append, List.sum_cons, lengthMs]
        linarith
      · refine (ih h.skip).trans ?_
        simp only [List.map_append, List.map_cons, List.sum_append, List.sum_cons, lengthMs]
        linarith
    · next hstart =>
      refine (ih (h.push (not_le.mp hstart))).trans ?_
      rw [List.append_assoc, List.singleton_append]

/-! ## The function -/

theorem ordered_inv (h : ∀ iv ∈ intervals, iv.1 ≤ iv.2) {first : Interval}
    (e : ordered intervals = first :: rest) : LoopInv [] first rest := by
  have hproper : ∀ iv ∈ first :: rest, iv.1 ≤ iv.2 := fun iv hm =>
    h iv ((ordered_perm intervals).mem_iff.mp (e ▸ hm))
  have hsorted := ordered_sorted intervals
  rw [e] at hsorted
  obtain ⟨h1, h2⟩ := List.forall_mem_cons.mp hproper
  obtain ⟨h3, h4⟩ := List.pairwise_cons.mp hsorted
  exact ⟨separated_snoc.mpr ⟨.nil, h1, nofun⟩, h2, h3, h4⟩

theorem mergeIntervals_separated (h : ∀ iv ∈ intervals, iv.1 ≤ iv.2) :
    Separated (mergeIntervals intervals).1 := by
  unfold mergeIntervals
  cases e : ordered intervals with
  | nil => exact .nil
  | cons first rest => exact mergeLoop_separated (ordered_inv h e)

theorem mergeIntervals_points (h : ∀ iv ∈ intervals, iv.1 ≤ iv.2) :
    points (mergeIntervals intervals).1 = points intervals := by
  rw [← points_perm (ordered_perm intervals)]
  unfold mergeIntervals
  cases e : ordered intervals with
  | nil => rfl
  | cons first rest => exact mergeLoop_points (ordered_inv h e)

theorem mergeIntervals_total (intervals : List Interval) :
    (mergeIntervals intervals).2 = ((mergeIntervals intervals).1.map lengthMs).sum := by
  unfold mergeIntervals
  cases ordered intervals <;> rfl

theorem mergeIntervals_le (h : ∀ iv ∈ intervals, iv.1 ≤ iv.2) :
    (mergeIntervals intervals).2 ≤ (intervals.map lengthMs).sum := by
  rw [← ((ordered_perm intervals).map lengthMs).sum_eq]
  unfold mergeIntervals
  cases e : ordered intervals with
  | nil => exact le_rfl
  | cons first rest => exact mergeLoop_total (ordered_inv h e)

/-- The result depends on the points covered only. -/
theorem mergeIntervals_congr {intervals' : List Interval} (h : ∀ iv ∈ intervals, iv.1 ≤ iv.2)
    (h' : ∀ iv ∈ intervals', iv.1 ≤ iv.2) (e : points intervals = points intervals') :
    mergeIntervals intervals = mergeIntervals intervals' := by
  have e1 : (mergeIntervals intervals).1 = (mergeIntervals intervals').1 :=
    (mergeIntervals_separated h).ext (mergeIntervals_separated h')
      (by rw [mergeIntervals_points h, mergeIntervals_points h', e])
  exact Prod.ext e1 (by rw [mergeIntervals_total, mergeIntervals_total, e1])

/-- A merged list of the points of `intervals`, and its total in milliseconds. -/
structure Merged (intervals : List Interval) (out : List Interval × ℚ) : Prop where
  sorted : out.1.Pairwise fun a b => a.1 ≤ b.1
  apart : out.1.Pairwise fun a b => a.2 < b.1
  covers : points out.1 = points intervals
  total : out.2 = (out.1.map fun iv => (iv.2 - iv.1) * 1000).sum
  bounded : out.2 ≤ (intervals.map fun iv => (iv.2 - iv.1) * 1000).sum

/-- **`merge_intervals`** merges, and neither the order of the intervals nor one that lies
inside another makes a difference to its total. -/
theorem merge_intervals (h : ∀ iv ∈ intervals, iv.1 ≤ iv.2) :
    Merged intervals (mergeIntervals intervals) ∧
      ∀ more intervals', (∀ iv ∈ more, iv.1 ≤ iv.2 ∧ ∃ o ∈ intervals, o.1 ≤ iv.1 ∧ iv.2 ≤ o.2) →
        intervals'.Perm (more ++ intervals) →
        (mergeIntervals intervals').2 = (mergeIntervals intervals).2 := by
  refine ⟨⟨(mergeIntervals_separated h).sorted, (mergeIntervals_separated h).apart,
    mergeIntervals_points h, mergeIntervals_total intervals, mergeIntervals_le h⟩,
    fun more intervals' hmore hp => congrArg Prod.snd (mergeIntervals_congr (fun iv hm => ?_) h ?_)⟩
  · rcases List.mem_append.mp (hp.mem_iff.mp hm) with hm | hm
    · exact (hmore iv hm).1
    · exact h iv hm
  · rw [points_perm hp, points_append_nested fun iv hm => (hmore iv hm).2]

theorem merge_intervals_nested : (∀ iv ∈ [((5, 6) : Interval), (0, 4), (1, 2), (2, 5)],
    iv.1 ≤ iv.2) ∧
    Merged [(5, 6), (0, 4), (1, 2), (2, 5)] (mergeIntervals [(5, 6), (0, 4), (1, 2), (2, 5)]) ∧
      (mergeIntervals [(0, 4), (2, 3), (5, 6), (0, 4), (1, 2), (2, 5)]).2 =
        (mergeIntervals [(5, 6), (0, 4), (1, 2), (2, 5)]).2 ∧
      (mergeIntervals [(5, 6), (0, 4), (1, 2), (2, 5)]).2 = 6000 := by
  have hproper : ∀ iv ∈ [((5, 6) : Interval), (0, 4), (1, 2), (2, 5)], iv.1 ≤ iv.2 := by
    simp only [List.forall_mem_cons]
    norm_num
  obtain ⟨h1, h2⟩ := merge_intervals hproper
  refine ⟨hproper, h1, h2 [(0, 4), (2, 3)] _ ?_ (List.Perm.refl _), ?_⟩
  · simp only [List.forall_mem_cons]
    norm_num
  · norm_num [mergeIntervals, ordered, List.mergeSort, mergeLoop, lengthMs]

end FrostSshCa.Analysis
