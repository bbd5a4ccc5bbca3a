import Xqueue.Library.Json

/-!
# JsonLength — how long a dump is

* `length_dumpsStr_gt`, `length_dumps_lt_of_mem` : a dump is longer than the strings in it;
* `length_dumpsStr_le` : a string that contains another one has no shorter dump;
* `length_dumps_obj_le` : objects, member by member.
-/

namespace Xqueue
namespace Library
namespace Json

variable {s t : PyStr} {items : List Json} {v : Json}

theorem escapeChar_ne_nil (c : PyChar) : escapeChar c ≠ [] := by
  rw [escapeChar]
  split
  · nofun
  · split_ifs <;> nofun

theorem length_le_flatMap_escapeChar (s : PyStr) : s.length ≤ (s.flatMap escapeChar).length := by
  induction s with
  | nil => exact Nat.le_refl 0
  | cons c s ih =>
      have hpos := List.length_pos_of_ne_nil (escapeChar_ne_nil c)
      calc
        s.length + 1 ≤ (s.flatMap escapeChar).length + (escapeChar c).length :=
          Nat.add_le_add ih hpos
        _ = ((c :: s).flatMap escapeChar).length := by
              rw [List.flatMap_cons, List.length_append, Nat.add_comm]

theorem length_dumpsStr (s : PyStr) : (dumpsStr s).length = (s.flatMap escapeChar).length + 2 := by
  simp [dumpsStr]

theorem length_dumpsStr_gt (s : PyStr) : s.length < (dumpsStr s).length := by
  have hle := length_le_flatMap_escapeChar s
  rw [length_dumpsStr]
  omega

/-- Characters that are left out make a dump no longer. -/
theorem length_dumpsStr_le (h : s.Sublist t) : (dumpsStr s).length ≤ (dumpsStr t).length := by
  rw [length_dumpsStr, length_dumpsStr]
  have hsub : (s.flatMap escapeChar).Sublist (t.flatMap escapeChar) := by
    induction h with
    | slnil => exact List.Sublist.refl []
    | cons c _ ih => exact ih.trans (List.sublist_append_right (escapeChar c) _)
    | cons_cons c _ ih => exact (List.Sublist.refl (escapeChar c)).append ih
  exact Nat.add_le_add_right hsub.length_le 2

theorem length_dumps_le_items (h : v ∈ items) : (dumps v).length ≤ (dumpsItems items).length := by
  induction items with
  | nil => exact absurd h List.not_mem_nil
  | cons w items ih =>
      rw [dumpsItems, List.length_append, List.length_append]
      rcases List.mem_cons.1 h with rfl | hmem
      · omega
      · have hle := ih hmem
        omega

/-- An array is longer than each of its items. -/
theorem length_dumps_lt_of_mem (h : v ∈ items) : (dumps v).length < (dumps (.arr items)).length := by
  cases items with
  | nil => exact absurd h List.not_mem_nil
  | cons w items =>
      rw [dumps, List.length_append, List.cons_append, List.length_cons, List.length_append]
      rcases List.mem_cons.1 h with rfl | hmem
      · omega
      · have hle := length_dumps_le_items hmem
        omega

theorem length_dumpsMembers_le {ms ns : List (PyStr × Json)}
    (h : List.Forall₂ (fun m n => (dumpsMember m).length ≤ (dumpsMember n).length) ms ns) :
    (dumpsMembers ms).length ≤ (dumpsMembers ns).length := by
  induction h with
  | nil => exact Nat.le_refl _
  | cons hmember _ ih =>
      simp only [dumpsMembers, List.length_append]
      omega

/-- Objects whose members are no longer, one by one. -/
theorem length_dumps_obj_le {ms ns : List (PyStr × Json)}
    (h : List.Forall₂ (fun m n => (dumpsMember m).length ≤ (dumpsMember n).length) ms ns) :
    (dumps (.obj ms)).length ≤ (dumps (.obj ns)).length := by
  cases h with
  | nil => exact Nat.le_refl _
  | cons hmember hrest =>
      have hmembers := length_dumpsMembers_le hrest
      simp only [dumps, List.length_append, List.length_cons]
      omega

end Json
end Library
end Xqueue
