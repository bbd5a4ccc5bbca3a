import Mathlib.Data.List.Basic
import Mathlib.Data.List.Nodup
import Mathlib.Data.List.Perm.Basic

/-!
# KeyedTable — rows under an auto-incremented key

A `KeyedTable R key` is a list of rows whose keys are pairwise distinct and below the next
key to be given out, so that an invalid table cannot be built.  The operations are those of
a relational table with an auto-increment primary key: look up, insert under a fresh key,
write a whole row (in place, or appended when its key is not stored), change the rows a
condition selects, and delete.
-/

namespace Xqueue
namespace Library

universe u

structure KeyedTable (R : Type u) (key : R → Nat) where
  rows : List R
  nextKey : Nat
  nodup : (rows.map key).Nodup
  fresh : ∀ r ∈ rows, key r < nextKey

namespace KeyedTable

variable {R : Type u} {key : R → Nat} {t : KeyedTable R key} {r s : R} {k : Nat}

instance : Membership R (KeyedTable R key) where
  mem t r := r ∈ t.rows

theorem mem_rows : r ∈ t ↔ r ∈ t.rows :=
  Iff.rfl

/-- The empty table; auto-increment keys start at one. -/
def empty : KeyedTable R key where
  rows := []
  nextKey := 1
  nodup := by simp
  fresh := by simp

theorem not_mem_empty : ¬ r ∈ (empty : KeyedTable R key) := by
  simp [mem_rows, empty]

theorem eq_of_key_eq (hr : r ∈ t) (hs : s ∈ t) (h : key r = key s) : r = s :=
  List.inj_on_of_nodup_map t.nodup hr hs h

/-- Among stored rows, no other row has the key of a stored one. -/
theorem key_notin_of_not_mem {rows : List R} (hrows : ∀ s ∈ rows, s ∈ t) (hr : r ∈ t)
    (h : r ∉ rows) : key r ∉ rows.map key := by
  intro hmem
  rcases List.mem_map.1 hmem with ⟨s, hs, hkey⟩
  have heq : s = r := eq_of_key_eq (hrows s hs) hr hkey
  exact h (heq ▸ hs)

/-! ## Look up -/

def get? (t : KeyedTable R key) (k : Nat) : Option R :=
  t.rows.find? (fun r => key r = k)

theorem get?_eq_some_iff : t.get? k = some r ↔ r ∈ t ∧ key r = k := by
  constructor
  · intro h
    refine ⟨List.mem_of_find?_eq_some h, ?_⟩
    simpa using List.find?_some h
  · rintro ⟨hmem, hk⟩
    cases h : t.get? k with
    | none =>
        have hno := (List.find?_eq_none.1 h) r hmem
        exact absurd hk (by simpa using hno)
    | some s =>
        have hs : s ∈ t := List.mem_of_find?_eq_some h
        have hsk : key s = k := by simpa using List.find?_some h
        rw [eq_of_key_eq hs hmem (hsk.trans hk.symm)]

theorem get?_eq_none_iff : t.get? k = none ↔ ∀ r ∈ t, key r ≠ k := by
  simp [get?, List.find?_eq_none, mem_rows]

theorem get?_of_mem (h : r ∈ t) : t.get? (key r) = some r :=
  get?_eq_some_iff.2 ⟨h, rfl⟩

theorem mem_of_get? (h : t.get? k = some r) : r ∈ t :=
  (get?_eq_some_iff.1 h).1

/-! ## Insert under a fresh key -/

/-- Append the row built for the next key. -/
def insert (t : KeyedTable R key) (mk : Nat → R) (hmk : ∀ k, key (mk k) = k) :
    KeyedTable R key where
  rows := t.rows ++ [mk t.nextKey]
  nextKey := t.nextKey + 1
  nodup := by
    have hnew : ∀ r ∈ t.rows, key r ≠ t.nextKey := fun r hr => Nat.ne_of_lt (t.fresh r hr)
    rw [List.map_append, List.nodup_append]
    refine ⟨t.nodup, by simp, ?_⟩
    simpa [hmk] using hnew
  fresh := by
    intro r hr
    rcases List.mem_append.1 hr with hr | hr
    · exact Nat.lt_succ_of_lt (t.fresh r hr)
    · have : r = mk t.nextKey := by simpa using hr
      subst this
      simp [hmk]

variable {mk : Nat → R} {hmk : ∀ k, key (mk k) = k}

theorem mem_insert : r ∈ t.insert mk hmk ↔ r ∈ t ∨ r = mk t.nextKey := by
  simp [mem_rows, insert]

/-! ## Write a whole row -/

/-- Replace the row under the same key, or append it when there is none. -/
def put (t : KeyedTable R key) (c : R) : KeyedTable R key where
  rows :=
    if (t.get? (key c)).isSome then t.rows.map (fun r => if key r = key c then c else r)
    else t.rows ++ [c]
  nextKey := max t.nextKey (key c + 1)
  nodup := by
    split
    · -- in place: the keys stay as they are
      have hkey : ∀ r ∈ t.rows, (key ∘ fun r => if key r = key c then c else r) r = key r := by
        intro r _
        by_cases h : key r = key c <;> simp [h]
      have hkeys : (t.rows.map (fun r => if key r = key c then c else r)).map key =
          t.rows.map key := by
        calc
          (t.rows.map (fun r => if key r = key c then c else r)).map key
              = t.rows.map (key ∘ fun r => if key r = key c then c else r) := List.map_map
          _ = t.rows.map key := List.map_congr_left hkey
      rw [hkeys]
      exact t.nodup
    · -- appended: no stored row has the key
      rename_i hnone
      have hno : ∀ r ∈ t.rows, key r ≠ key c := by
        simpa [get?_eq_none_iff, mem_rows] using hnone
      rw [List.map_append, List.nodup_append]
      refine ⟨t.nodup, by simp, ?_⟩
      simpa using hno
  fresh := by
    intro r hr
    split at hr
    · rcases List.mem_map.1 hr with ⟨q, hq, rfl⟩
      have := t.fresh q hq
      split <;> omega
    · rcases List.mem_append.1 hr with hr | hr
      · have := t.fresh r hr
        omega
      · have : r = c := by simpa using hr
        subst this
        omega

theorem mem_put {c : R} : r ∈ t.put c ↔ r = c ∨ (r ∈ t ∧ key r ≠ key c) := by
  by_cases hsome : (t.get? (key c)).isSome
  · rcases Option.isSome_iff_exists.1 hsome with ⟨q, hq⟩
    rcases get?_eq_some_iff.1 hq with ⟨hqmem, hqk⟩
    simp only [mem_rows, put, hsome, if_true, List.mem_map]
    constructor
    · rintro ⟨p, hp, rfl⟩
      by_cases hk : key p = key c
      · exact Or.inl (by simp [hk])
      · exact Or.inr (by simpa [hk] using hp)
    · rintro (rfl | ⟨hr, hk⟩)
      · exact ⟨q, hqmem, by simp [hqk]⟩
      · exact ⟨r, hr, by simp [hk]⟩
  · have hno : ∀ p ∈ t, key p ≠ key c := get?_eq_none_iff.1 (by simpa using hsome)
    simp only [mem_rows, put, hsome, Bool.false_eq_true, if_false, List.mem_append]
    constructor
    · rintro (hr | hr)
      · exact Or.inr ⟨hr, hno r hr⟩
      · exact Or.inl (by simpa using hr)
    · rintro (rfl | ⟨hr, _⟩)
      · exact Or.inr (by simp)
      · exact Or.inl hr

/-- Writing a stored row changes nothing. -/
theorem put_of_mem {c : R} (h : c ∈ t) : t.put c = t := by
  have hsome : (t.get? (key c)).isSome = true := by simp [get?_of_mem h]
  have hrow : ∀ r ∈ t.rows, (if key r = key c then c else r) = id r := by
    intro r hr
    by_cases hk : key r = key c
    · simp [eq_of_key_eq hr h hk]
    · simp [hk]
  have hrows : t.rows.map (fun r => if key r = key c then c else r) = t.rows := by
    calc
      t.rows.map (fun r => if key r = key c then c else r)
          = t.rows.map id := List.map_congr_left hrow
      _ = t.rows := List.map_id t.rows
  have hnext : max t.nextKey (key c + 1) = t.nextKey := Nat.max_eq_left (t.fresh c h)
  cases t
  simp only [put, hsome, if_true, mk.injEq]
  exact ⟨hrows, hnext⟩

theorem le_nextKey_put {c : R} : t.nextKey ≤ (t.put c).nextKey :=
  Nat.le_max_left _ _

/-! ## Change the rows a condition selects -/

def updateWhere (t : KeyedTable R key) (p : R → Bool) (f : R → R) (hf : ∀ r, key (f r) = key r) :
    KeyedTable R key where
  rows := t.rows.map (fun r => if p r then f r else r)
  nextKey := t.nextKey
  nodup := by
    have hkey : ∀ r ∈ t.rows, (key ∘ fun r => if p r then f r else r) r = key r := by
      intro r _
      by_cases h : p r <;> simp [h, hf]
    have hkeys : (t.rows.map (fun r => if p r then f r else r)).map key = t.rows.map key := by
      calc
        (t.rows.map (fun r => if p r then f r else r)).map key
            = t.rows.map (key ∘ fun r => if p r then f r else r) := List.map_map
        _ = t.rows.map key := List.map_congr_left hkey
    rw [hkeys]
    exact t.nodup
  fresh := by
    intro r hr
    rcases List.mem_map.1 hr with ⟨q, hq, rfl⟩
    have := t.fresh q hq
    split
    · rw [hf]; exact this
    · exact this

variable {p : R → Bool} {f : R → R} {hf : ∀ r, key (f r) = key r}

theorem mem_updateWhere :
    r ∈ t.updateWhere p f hf ↔ ∃ s ∈ t, (if p s then f s else s) = r := by
  simp [mem_rows, updateWhere]

/-- An update that selects no stored row does nothing. -/
theorem updateWhere_of_forall_not (h : ∀ r ∈ t, p r = false) : t.updateWhere p f hf = t := by
  have hrow : ∀ r ∈ t.rows, (if p r then f r else r) = id r := by
    intro r hr
    simp [h r hr]
  have hrows : t.rows.map (fun r => if p r then f r else r) = t.rows := by
    calc
      t.rows.map (fun r => if p r then f r else r)
          = t.rows.map id := List.map_congr_left hrow
      _ = t.rows := List.map_id t.rows
  cases t
  simp only [updateWhere, mk.injEq, and_true]
  exact hrows

theorem ext_rows {u : KeyedTable R key} (hrows : t.rows = u.rows) (hnext : t.nextKey = u.nextKey) :
    t = u := by
  cases t
  cases u
  simp only [mk.injEq]
  exact ⟨hrows, hnext⟩

/-- Two updates that do the same to every stored row. -/
theorem updateWhere_ext {q : R → Bool} {g : R → R} {hg : ∀ r, key (g r) = key r}
    (h : ∀ r ∈ t, (if p r then f r else r) = if q r then g r else r) :
    t.updateWhere p f hf = t.updateWhere q g hg :=
  ext_rows (List.map_congr_left h) rfl

theorem updateWhere_congr {q : R → Bool} (h : ∀ r ∈ t, p r = q r) :
    t.updateWhere p f hf = t.updateWhere q f hf :=
  updateWhere_ext fun r hr => by rw [h r hr]

/-- Two updates by one function, the second of which selects no row that the first has changed. -/
theorem updateWhere_updateWhere {q : R → Bool} (h : ∀ r ∈ t, p r = true → q (f r) = false) :
    (t.updateWhere p f hf).updateWhere q f hf = t.updateWhere (fun r => p r || q r) f hf := by
  refine ext_rows ?_ rfl
  simp only [updateWhere, List.map_map]
  refine List.map_congr_left ?_
  intro r hr
  by_cases hp : p r = true
  · simp [hp, h r hr hp]
  · simp [hp]

/-- Writing over a stored row is an update of that row alone. -/
theorem put_eq_updateWhere [DecidableEq R] (hs : s ∈ t) :
    t.put (f s) = t.updateWhere (fun r => decide (r = s)) f hf := by
  have hsome : (t.get? (key (f s))).isSome = true := by simp [hf, get?_of_mem hs]
  refine ext_rows ?_ ?_
  · simp only [put, hsome, if_true, updateWhere]
    refine List.map_congr_left ?_
    intro r hr
    by_cases hrs : r = s
    · simp [hrs, hf]
    · -- the key tells the rows apart
      have hkey : key r ≠ key (f s) := fun heq => hrs (eq_of_key_eq hr hs (heq.trans (hf s)))
      simp [hrs, hkey]
  · have hnext := t.fresh s hs
    simp only [put, updateWhere, hf]
    omega

/-- A write under a stored key is in place. -/
theorem rows_put {c : R} (hs : s ∈ t) (hc : key c = key s) :
    (t.put c).rows = t.rows.map (fun r => if key r = key s then c else r) := by
  have hsome : (t.get? (key s)).isSome = true := by simp [get?_of_mem hs]
  simp only [put, hc, hsome, if_true]

/-- Of two writes under a stored key the second counts. -/
theorem put_put {c d : R} (hs : s ∈ t) (hc : key c = key s) (hd : key d = key s) :
    (t.put c).put d = t.put d := by
  have hput : c ∈ t.put c := mem_put.2 (Or.inl rfl)
  refine ext_rows ?_ ?_
  · rw [rows_put hput (hd.trans hc.symm), rows_put hs hc, rows_put hs hd, List.map_map]
    refine List.map_congr_left ?_
    intro r _
    by_cases hr : key r = key s <;> simp [hr, hc]
  · simp only [put, hc, hd, Nat.max_assoc, Nat.max_self]

/-! ## Delete -/

def deleteWhere (t : KeyedTable R key) (p : R → Bool) : KeyedTable R key where
  rows := t.rows.filter (fun r => !p r)
  nextKey := t.nextKey
  nodup := t.nodup.sublist (List.filter_sublist.map key)
  fresh := fun r hr => t.fresh r (List.mem_of_mem_filter hr)

theorem mem_deleteWhere : r ∈ t.deleteWhere p ↔ r ∈ t ∧ p r = false := by
  simp [mem_rows, deleteWhere]

theorem deleteWhere_of_forall_not (h : ∀ r ∈ t, p r = false) : t.deleteWhere p = t := by
  refine ext_rows (List.filter_eq_self.2 ?_) rfl
  intro r hr
  rw [h r hr, Bool.not_false]

/-- An insert of a row that is not to be deleted comes before the deletion or after it. -/
theorem deleteWhere_insert (h : p (mk t.nextKey) = false) :
    (t.insert mk hmk).deleteWhere p = (t.deleteWhere p).insert mk hmk := by
  refine ext_rows ?_ rfl
  simp [deleteWhere, insert, h]

/-- A deletion that follows a narrower one does the work of both. -/
theorem deleteWhere_deleteWhere {q : R → Bool} (h : ∀ r ∈ t, q r = true → p r = true) :
    (t.deleteWhere q).deleteWhere p = t.deleteWhere p := by
  refine ext_rows ?_ rfl
  simp only [deleteWhere, List.filter_filter]
  refine List.filter_congr ?_
  intro r hr
  cases hq : q r with
  | true => simp [h r hr hq]
  | false => simp

end KeyedTable

end Library
end Xqueue
