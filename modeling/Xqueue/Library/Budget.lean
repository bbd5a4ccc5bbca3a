import Mathlib.Algebra.GroupWithZero.Nat
import Mathlib.Algebra.Order.BigOperators.Group.List
import Mathlib.Algebra.Order.Group.Nat
import Xqueue.Library.KeyedTable

/-!
# Budget — what the rows of a table have left

Each row of a table has something left to spend.  Some of the rows are open, and a row that is closed
spends.

* `total` : what the rows have left in all;
* `Spends` : a change of the table that does not raise the total, and lowers it if it closes a row;
* `Spends.put`, `Spends.updateWhere`, `Spends.insert` : the changes of the rows that are of this kind;
* `Spends.budget`, `Spends.kept` : what has been spent and what is left stay within a budget, and a row
  is closed only if something has been spent on it;
* `total_put_lt` : a row that spends lowers the total.
-/

namespace Xqueue
namespace Library
namespace KeyedTable

universe u

variable {R : Type u} {key : R → Nat} {t v w : KeyedTable R key} {s c : R} {left : R → Nat}
  {inside isOpen : R → Prop}

def total (left : R → Nat) (t : KeyedTable R key) : Nat :=
  (t.rows.map left).sum

/-- Rows with a bound, among rows that have nothing left. -/
theorem total_le_countP {p : R → Bool} {n : Nat} (t : KeyedTable R key)
    (hout : ∀ r, p r = false → left r = 0) (hle : ∀ r, left r ≤ n) :
    t.total left ≤ t.rows.countP p * n := by
  rw [total]
  induction t.rows with
  | nil => exact Nat.zero_le _
  | cons r rows ih =>
      rw [List.map_cons, List.sum_cons, List.countP_cons, Nat.add_mul, Nat.add_comm (left r)]
      refine Nat.add_le_add ih ?_
      cases hp : p r with
      | true => simpa using hle r
      | false => simp [hout r hp]

/-- The rows inside stay there. -/
structure Spends (left : R → Nat) (inside isOpen : R → Prop) (t v : KeyedTable R key) : Prop where
  total_le : v.total left ≤ t.total left
  rows : ∀ r ∈ t, inside r → ∃ c ∈ v, key c = key r ∧ inside c ∧
    (isOpen r → isOpen c ∨ v.total left < t.total left)

theorem Spends.refl (t : KeyedTable R key) : Spends left inside isOpen t t :=
  ⟨le_refl _, fun r hr hin => ⟨r, hr, rfl, hin, Or.inl⟩⟩

theorem Spends.trans (h : Spends left inside isOpen t v) (h' : Spends left inside isOpen v w) :
    Spends left inside isOpen t w where
  total_le := h'.total_le.trans h.total_le
  rows := by
    intro r hr hin
    rcases h.rows r hr hin with ⟨c, hc, hkey, hin', hopen⟩
    rcases h'.rows c hc hin' with ⟨d, hd, hkey', hin'', hopen'⟩
    refine ⟨d, hd, hkey'.trans hkey, hin'', fun ho => ?_⟩
    rcases hopen ho with ho' | hlt
    · rcases hopen' ho' with ho'' | hlt
      · exact Or.inl ho''
      · exact Or.inr (hlt.trans_le h.total_le)
    · exact Or.inr (h'.total_le.trans_lt hlt)

/-- What has been spent before counts against the same budget. -/
theorem Spends.budget {k n : Nat} (h : Spends left inside isOpen t v) (hle : k + t.total left ≤ n) :
    k + v.total left ≤ n :=
  calc
    k + v.total left ≤ k + t.total left := Nat.add_le_add_left h.total_le k
    _ ≤ n := hle

/-- A row that is open, or that something has been spent on already. -/
theorem Spends.kept {k n : Nat} (h : Spends left inside isOpen t v) (hle : k + t.total left ≤ n)
    (hs : s ∈ t) (hin : inside s) (hopen : isOpen s ∨ k + t.total left < n) :
    ∃ c ∈ v, key c = key s ∧ inside c ∧ (isOpen c ∨ k + v.total left < n) := by
  rcases h.rows s hs hin with ⟨c, hc, hkey, hin', hcloses⟩
  refine ⟨c, hc, hkey, hin', ?_⟩
  rcases hopen with ho | hlt
  · exact (hcloses ho).imp_right fun hlt => (Nat.add_lt_add_left hlt k).trans_le hle
  · exact Or.inr ((Nat.add_le_add_left h.total_le k).trans_lt hlt)

section Map

variable {f : R → R}

theorem total_map_le (hrows : v.rows = t.rows.map f) (hle : ∀ r ∈ t, left (f r) ≤ left r) :
    v.total left ≤ t.total left := by
  rw [total, total, hrows, List.map_map]
  exact List.sum_le_sum hle

theorem total_map_lt (hrows : v.rows = t.rows.map f) (hle : ∀ r ∈ t, left (f r) ≤ left r) (hs : s ∈ t)
    (hlt : left (f s) < left s) : v.total left < t.total left := by
  rw [total, total, hrows, List.map_map]
  exact List.sum_lt_sum (left ∘ f) left hle ⟨s, hs, hlt⟩

/-- Every row is written anew. -/
theorem Spends.of_map (hrows : v.rows = t.rows.map f) (hkey : ∀ r ∈ t, key (f r) = key r)
    (hle : ∀ r ∈ t, left (f r) ≤ left r) (hinside : ∀ r ∈ t, inside r → inside (f r))
    (hopen : ∀ r ∈ t, inside r → isOpen r → isOpen (f r) ∨ left (f r) < left r) :
    Spends left inside isOpen t v where
  total_le := total_map_le hrows hle
  rows := by
    intro r hr hin
    have hmem : f r ∈ v := by
      rw [mem_rows, hrows]
      exact List.mem_map_of_mem hr
    exact ⟨f r, hmem, hkey r hr, hinside r hr hin,
      fun ho => (hopen r hr hin ho).imp_right (total_map_lt hrows hle hr)⟩

end Map

/-- What a write under the key of a stored row makes of the rows. -/
theorem put_cases (hs : s ∈ t) (P : R → R → Prop) (hput : P s c) (hother : ∀ r, P r r) :
    ∀ r ∈ t, P r (if key r = key s then c else r) := by
  intro r hr
  by_cases hkey : key r = key s
  · rw [if_pos hkey, eq_of_key_eq hr hs hkey]
    exact hput
  · rw [if_neg hkey]
    exact hother r

theorem Spends.put (hs : s ∈ t) (hc : key c = key s) (hle : left c ≤ left s)
    (hinside : inside s → inside c) (hopen : inside s → isOpen s → isOpen c ∨ left c < left s) :
    Spends left inside isOpen t (t.put c) :=
  Spends.of_map (rows_put hs hc) (put_cases hs (fun r d => key d = key r) hc fun _ => rfl)
    (put_cases hs (fun r d => left d ≤ left r) hle fun _ => le_refl _)
    (put_cases hs (fun r d => inside r → inside d) hinside fun _ => id)
    (put_cases hs (fun r d => inside r → isOpen r → isOpen d ∨ left d < left r) hopen
      fun _ _ => Or.inl)

theorem total_put_lt (hs : s ∈ t) (hc : key c = key s) (hlt : left c < left s) :
    (t.put c).total left < t.total left :=
  total_map_lt (rows_put hs hc) (put_cases hs (fun r d => left d ≤ left r) hlt.le fun _ => le_refl _) hs
    (by rwa [if_pos rfl])

section Update

variable {p : R → Bool} {f : R → R} {hf : ∀ r, key (f r) = key r}

theorem Spends.updateWhere (hle : ∀ r, p r = true → left (f r) ≤ left r)
    (hinside : ∀ r, inside r → inside (f r))
    (hopen : ∀ r, p r = true → inside r → isOpen r → isOpen (f r) ∨ left (f r) < left r) :
    Spends left inside isOpen t (t.updateWhere p f hf) := by
  refine Spends.of_map rfl ?_ ?_ ?_ ?_
  · intro r _
    split
    · exact hf r
    · rfl
  · intro r _
    split
    · exact hle r ‹_›
    · exact le_refl _
  · intro r _ hin
    split
    · exact hinside r hin
    · exact hin
  · intro r _ hin ho
    split
    · exact hopen r ‹_› hin ho
    · exact Or.inl ho

end Update

/-- A new row has nothing left. -/
theorem Spends.insert {mk : Nat → R} {hmk : ∀ k, key (mk k) = k} (hnew : left (mk t.nextKey) = 0) :
    Spends left inside isOpen t (t.insert mk hmk) where
  total_le := by simp [total, KeyedTable.insert, hnew]
  rows := fun r hr hin => ⟨r, mem_insert.2 (Or.inl hr), rfl, hin, Or.inl⟩

end KeyedTable
end Library
end Xqueue
