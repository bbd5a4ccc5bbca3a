import Mathlib.Data.List.ReduceOption

/-!
# Grouper — chunks from several copies of one iterator

The recipe `zip_longest(*[iter(xs)] * n)` reads one iterator through `n` columns.  A column that
finds the iterator exhausted is closed, and gives the fill value from then on; the result ends
with the first tuple in which the last open column is closed.  This file provides:

* `nextTuple`, `zipLongest`, `grouper` : the tuples, with `none` for the fill value;
* `grouper_of_ne_nil` : one tuple takes the next `n` elements, and pads what is missing;
* `flatten_chunks`, `length_of_mem_chunks` : without the padding, the tuples are chunks of the
  elements.
-/

namespace Xqueue
namespace Library

universe u

variable {α : Type u} {n : Nat} {xs : List α} {cols : List Bool}

/-- The values of one tuple, the columns that are still open, and the rest of the iterator. -/
def nextTuple : List Bool → List α → List (Option α) × List Bool × List α
  | [], xs => ([], [], xs)
  | true :: cols, x :: xs =>
      let (values, cols, xs) := nextTuple cols xs
      (some x :: values, true :: cols, xs)
  | _ :: cols, xs =>
      let (values, cols, xs) := nextTuple cols xs
      (none :: values, false :: cols, xs)

/-- The columns that stay open have read one element each. -/
theorem length_nextTuple :
    (nextTuple cols xs).2.2.length + (nextTuple cols xs).2.1.count true = xs.length := by
  induction cols generalizing xs with
  | nil => rfl
  | cons c cols ih =>
      cases c with
      | false => exact ih
      | true =>
          cases xs with
          | nil => exact ih
          | cons x xs =>
              show (nextTuple cols xs).2.2.length + (true :: (nextTuple cols xs).2.1).count true =
                xs.length + 1
              rw [List.count_cons_self, ← Nat.add_assoc, ih]

theorem length_nextTuple_lt (h : true ∈ (nextTuple cols xs).2.1) :
    (nextTuple cols xs).2.2.length < xs.length := by
  have hread := @length_nextTuple α xs cols
  have hopen := List.count_pos_iff.2 h
  omega

/-- The tuples up to the one that closes the last open column. -/
def zipLongest (cols : List Bool) (xs : List α) : List (List (Option α)) :=
  if _h : true ∈ (nextTuple cols xs).2.1 then
    (nextTuple cols xs).1 :: zipLongest (nextTuple cols xs).2.1 (nextTuple cols xs).2.2
  else []
termination_by xs.length
decreasing_by exact length_nextTuple_lt _h

/-- `grouper(xs, n)` -/
def grouper (xs : List α) (n : Nat) : List (List (Option α)) :=
  zipLongest (List.replicate n true) xs

/-- The tuples without the fill values. -/
def chunks (xs : List α) (n : Nat) : List (List α) :=
  (grouper xs n).map List.reduceOption

/-! ## One tuple -/

theorem nextTuple_nil : nextTuple cols ([] : List α) =
    (List.replicate cols.length none, List.replicate cols.length false, []) := by
  induction cols with
  | nil => rfl
  | cons c cols ih => cases c <;> simp [nextTuple, ih, List.replicate_succ]

theorem zipLongest_nil : zipLongest cols ([] : List α) = [] := by
  rw [zipLongest, nextTuple_nil, dif_neg]
  exact fun h => absurd (List.eq_of_mem_replicate h) nofun

theorem nextTuple_replicate : nextTuple (List.replicate n true) xs =
    ((xs.take n).map some ++ List.replicate (n - xs.length) none,
      List.replicate (min n xs.length) true ++ List.replicate (n - xs.length) false, xs.drop n) := by
  induction n generalizing xs with
  | zero => simp [nextTuple]
  | succ n ih =>
      cases xs with
      | nil => simp [nextTuple_nil]
      | cons x xs =>
          simp only [List.replicate_succ, nextTuple, ih]
          simp [Nat.add_sub_add_right, Nat.succ_min_succ, List.replicate_succ]

/-- The next tuple takes `n` elements; the columns closed in it read nothing more. -/
theorem grouper_of_ne_nil (hn : 0 < n) (hxs : xs ≠ []) : grouper xs n =
    ((xs.take n).map some ++ List.replicate (n - xs.length) none) :: grouper (xs.drop n) n := by
  have hopen : true ∈ List.replicate (min n xs.length) true ++
      List.replicate (n - xs.length) false := by
    have hpos : min n xs.length ≠ 0 := by
      have := List.length_pos_of_ne_nil hxs
      omega
    exact List.mem_append_left _ (List.mem_replicate.2 ⟨hpos, rfl⟩)
  rw [grouper, zipLongest, nextTuple_replicate, dif_pos hopen]
  congr 1
  by_cases hle : n ≤ xs.length
  · simp only [Nat.min_eq_left hle, Nat.sub_eq_zero_of_le hle, List.replicate_zero, List.append_nil]
    rfl
  · have hdrop : xs.drop n = [] := List.drop_eq_nil_of_le (by omega)
    rw [hdrop, grouper]
    exact zipLongest_nil.trans zipLongest_nil.symm

theorem grouper_nil : grouper ([] : List α) n = [] :=
  zipLongest_nil

/-! ## Chunks -/

theorem chunks_nil : chunks ([] : List α) n = [] := by
  rw [chunks, grouper_nil, List.map_nil]

theorem chunks_of_ne_nil (hn : 0 < n) (hxs : xs ≠ []) :
    chunks xs n = xs.take n :: chunks (xs.drop n) n := by
  have htake : ((xs.take n).map some ++ List.replicate (n - xs.length) none).reduceOption =
      xs.take n := by
    rw [List.reduceOption_append, List.reduceOption_replicate_none, List.append_nil]
    simp [List.reduceOption]
  rw [chunks, grouper_of_ne_nil hn hxs, List.map_cons, htake]
  rfl

/-- Induction over the chunks of a list. -/
theorem chunks_induction {motive : List α → Prop} (hn : 0 < n) (nil : motive [])
    (cons : ∀ xs, xs ≠ [] → motive (xs.drop n) → motive xs) (xs : List α) : motive xs := by
  by_cases hxs : xs = []
  · exact hxs ▸ nil
  · exact cons xs hxs (chunks_induction hn nil cons (xs.drop n))
termination_by xs.length
decreasing_by
  have := List.length_pos_of_ne_nil hxs
  rw [List.length_drop]
  omega

theorem flatten_chunks (hn : 0 < n) : (chunks xs n).flatten = xs := by
  induction xs using chunks_induction hn with
  | nil => rw [chunks_nil, List.flatten_nil]
  | cons xs hxs ih => rw [chunks_of_ne_nil hn hxs, List.flatten_cons, ih, List.take_append_drop]

theorem length_of_mem_chunks (hn : 0 < n) : ∀ c ∈ chunks xs n, 1 ≤ c.length ∧ c.length ≤ n := by
  induction xs using chunks_induction hn with
  | nil =>
      intro c hc
      rw [chunks_nil] at hc
      exact absurd hc List.not_mem_nil
  | cons xs hxs ih =>
      intro c hc
      rw [chunks_of_ne_nil hn hxs] at hc
      rcases List.mem_cons.1 hc with rfl | hc
      · have := List.length_pos_of_ne_nil hxs
        rw [List.length_take]
        omega
      · exact ih c hc

example : grouper ["A", "B", "C", "D", "E"] 3 =
    [[some "A", some "B", some "C"], [some "D", some "E", none]] := by decide +kernel

end Library
end Xqueue
