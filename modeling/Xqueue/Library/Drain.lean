import Mathlib.Data.List.Perm.Basic
import Mathlib.Data.List.Nodup
import Mathlib.Order.Basic

/-!
# Drain — taking a least element, again and again

A pool from which a least element is taken, then a least element of what is left, and so on.

* `Drains f pool taken rest` : taking the elements `taken`, one after another, each of them least
  under `f` when it is taken, leaves `rest`;
* `Drains.perm`, `Drains.pairwise_le` : nothing is lost or taken twice, and the order is that of `f`;
* `Drains.getLast?_eq` : the greatest element is the last one.
-/

namespace Xqueue
namespace Library

universe u v

variable {α : Type u} {β : Type v} [Preorder β]

inductive Drains (f : α → β) : List α → List α → List α → Prop
  | nil (pool : List α) : Drains f pool [] pool
  | cons {x : α} {pool pool' taken rest : List α} : (∀ y ∈ pool, f x ≤ f y) →
      pool.Perm (x :: pool') → Drains f pool' taken rest → Drains f pool (x :: taken) rest

namespace Drains

variable {f : α → β} {pool taken rest : List α} {x : α}

theorem perm (h : Drains f pool taken rest) : pool.Perm (taken ++ rest) := by
  induction h with
  | nil pool => exact List.Perm.refl pool
  | @cons x pool pool' taken rest _ hperm _ ih => exact hperm.trans (ih.cons x)

theorem length_eq (h : Drains f pool taken rest) : pool.length = taken.length + rest.length := by
  rw [h.perm.length_eq, List.length_append]

/-- As many elements as there are empty the pool. -/
theorem rest_eq_nil (h : Drains f pool taken rest) (hlen : taken.length = pool.length) :
    rest = [] := by
  have := h.length_eq
  exact List.length_eq_zero_iff.1 (by omega)

theorem mem_of_mem_taken (h : Drains f pool taken rest) (hx : x ∈ taken) : x ∈ pool :=
  h.perm.mem_iff.2 (List.mem_append_left rest hx)

theorem pairwise_le (h : Drains f pool taken rest) : taken.Pairwise (fun x y => f x ≤ f y) := by
  induction h with
  | nil => exact List.Pairwise.nil
  | @cons x pool pool' taken rest hle hperm hrest ih =>
      refine List.Pairwise.cons ?_ ih
      intro y hy
      exact hle y (hperm.mem_iff.2 (List.mem_cons_of_mem x (hrest.mem_of_mem_taken hy)))

/-- An element that is greater than all others is taken last. -/
theorem getLast?_eq (h : Drains f pool taken []) (hx : x ∈ pool)
    (hmax : ∀ y ∈ pool, y ≠ x → f y < f x) : taken.getLast? = some x := by
  have htaken : x ∈ taken := by simpa using h.perm.mem_iff.1 hx
  rcases List.eq_nil_or_concat taken with rfl | ⟨before, last, rfl⟩
  · cases htaken
  · have hlast : last = x := by
      by_contra hne
      -- the last element would be smaller than one taken before it
      have hlt : f last < f x := hmax last (h.mem_of_mem_taken (by simp)) hne
      have hbefore : x ∈ before := by
        have hx' : x ∈ before ∨ x = last := by simpa using htaken
        exact hx'.resolve_right (Ne.symm hne)
      have hpair := (List.pairwise_append.1 (by simpa using h.pairwise_le)).2.2 x hbefore last (by simp)
      exact absurd hlt (not_lt_of_ge hpair)
    simp [hlast]

end Drains

end Library
end Xqueue
