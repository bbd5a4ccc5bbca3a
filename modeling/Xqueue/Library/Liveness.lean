import Mathlib.Order.WellFounded
import Mathlib.Order.Nat
import Mathlib.Data.Nat.Find
import Xqueue.Library.Transition

/-!
# Liveness — what comes to an end

Steps of a system that lower a rank cannot go on for ever.

* `System.Halts` : every sequence of steps that meet a condition ends;
* `halts_of_rank` : it does if the steps lower a rank in a well-founded order;
* `Halts.not_infinite`, `Halts.exists_stuck` : there is no infinite sequence, and some run ends
  where no further step is possible;
* `infiniteRun_of_cycle` : a run that comes back to its start can go on for ever;
* `eventually_of_rank` : in an infinite run, a goal is reached if the steps that matter lower the
  rank and the others do not raise it, unless the former cease.
-/

namespace Xqueue
namespace Library
namespace System

universe u v w x

variable {S : Type u} {A : Type v} {O : Type w} {sys : System S A O} {ok : S → A → Prop} {s t : S}

/-- Every sequence of steps that meet the condition ends. -/
def Halts (sys : System S A O) (ok : S → A → Prop) (s : S) : Prop :=
  Acc (fun u t => ∃ a o, ok t a ∧ sys.step t a = some (u, o)) s

/-- No step that meets the condition is possible. -/
def Stuck (sys : System S A O) (ok : S → A → Prop) (s : S) : Prop :=
  ∀ a, ok s a → sys.step s a = none

/-- An infinite run. -/
def InfiniteRun (sys : System S A O) (f : ℕ → S) (act : ℕ → A) : Prop :=
  ∀ n, ∃ o, sys.step (f n) (act n) = some (f (n + 1), o)

/-- The states of a run, from its start to its end. -/
theorem Run.exists_states {as : List A} {os : List O} (h : Run sys ok s as os t) :
    ∃ f : ℕ → S, f 0 = s ∧ f as.length = t ∧
      ∀ n (hn : n < as.length), ∃ o, sys.step (f n) (as.get ⟨n, hn⟩) = some (f (n + 1), o) := by
  induction h with
  | nil => exact ⟨fun _ => s, rfl, rfl, fun n hn => absurd hn (Nat.not_lt_zero n)⟩
  | @snoc u v as os o a hrun _ hs ih =>
      rcases ih with ⟨f, hstart, hend, hsteps⟩
      refine ⟨fun n => if n ≤ as.length then f n else v, ?_, ?_, ?_⟩
      · simpa using hstart
      · simp
      · intro n hn
        have hle : n ≤ as.length := by simpa [Nat.lt_succ_iff] using hn
        rcases Nat.eq_or_lt_of_le hle with rfl | hlt
        · -- the last step
          have hlong : ¬ as.length + 1 ≤ as.length := Nat.not_succ_le_self _
          exact ⟨o, by simpa [hend, hlong] using hs⟩
        · rcases hsteps n hlt with ⟨o', hstep⟩
          have hnext : n + 1 ≤ as.length := hlt
          exact ⟨o', by simpa [hle, hnext, List.getElem_append_left hlt] using hstep⟩

/-- A run that comes back to its start can go on for ever. -/
theorem infiniteRun_of_cycle {as : List A} {os : List O} (hne : 0 < as.length)
    (h : Run sys ok s as os s) :
    ∃ f : ℕ → S, f 0 = s ∧
      InfiniteRun sys f (fun n => as.get ⟨n % as.length, Nat.mod_lt n hne⟩) := by
  rcases h.exists_states with ⟨f, hstart, hend, hsteps⟩
  refine ⟨fun n => f (n % as.length), by simpa using hstart, ?_⟩
  intro n
  rcases hsteps (n % as.length) (Nat.mod_lt n hne) with ⟨o, hstep⟩
  refine ⟨o, ?_⟩
  have hlt := Nat.mod_lt n hne
  -- within the cycle, or at its end
  rcases Nat.eq_or_lt_of_le (Nat.succ_le_of_lt hlt) with hlast | hwithin
  · have hzero : (n + 1) % as.length = 0 := by
      rw [← Nat.mod_add_mod, ← Nat.succ_eq_add_one, hlast, Nat.mod_self]
    simp only [hzero, hstart]
    rw [hstep, ← Nat.succ_eq_add_one, hlast, hend]
  · have hnext : (n + 1) % as.length = n % as.length + 1 := by
      rw [← Nat.mod_add_mod, Nat.mod_eq_of_lt hwithin]
    simp only [hnext]
    exact hstep

section Rank

variable {α : Type x} [Preorder α] [WellFoundedLT α]

theorem halts_of_rank (rank : S → α) {I : S → Prop}
    (hstep : ∀ s a t o, I s → ok s a → sys.step s a = some (t, o) → I t ∧ rank t < rank s)
    (h : I s) : Halts sys ok s := by
  induction hr : rank s using WellFoundedLT.induction generalizing s with
  | ind r ih =>
      subst hr
      refine Acc.intro s ?_
      rintro t ⟨a, o, hok, hs⟩
      rcases hstep s a t o h hok hs with ⟨ht, hlt⟩
      exact ih (rank t) hlt ht rfl

/-- The goal is reached, or the steps that matter cease. -/
theorem eventually_of_rank {f : ℕ → S} (matters : ℕ → Prop) (goal : S → Prop) (rank : S → α)
    (hdown : ∀ n, ¬ goal (f n) → matters n → goal (f (n + 1)) ∨ rank (f (n + 1)) < rank (f n))
    (hkeep : ∀ n, ¬ goal (f n) → ¬ matters n → rank (f (n + 1)) ≤ rank (f n)) (n : ℕ) :
    (∃ m, n ≤ m ∧ goal (f m)) ∨ ∃ m, n ≤ m ∧ ∀ k, m ≤ k → ¬ matters k := by
  classical
  induction hr : rank (f n) using WellFoundedLT.induction generalizing n with
  | ind r ih =>
      subst hr
      by_cases hgoal : ∃ m, n ≤ m ∧ goal (f m)
      · exact Or.inl hgoal
      by_cases hmore : ∃ k, n ≤ k ∧ matters k
      · have hnot : ∀ m, n ≤ m → ¬ goal (f m) := fun m hm hg => hgoal ⟨m, hm, hg⟩
        rcases Nat.find_spec hmore with ⟨hle, hmatters⟩
        -- up to the next step that matters the rank is not raised
        have hbefore : ∀ j, n + j ≤ Nat.find hmore → rank (f (n + j)) ≤ rank (f n) := by
          intro j
          induction j with
          | zero => exact fun _ => le_refl _
          | succ j ihj =>
              intro hj
              have hlt : n + j < Nat.find hmore := Nat.lt_of_succ_le hj
              have hidle : ¬ matters (n + j) :=
                fun hm => Nat.find_min hmore hlt ⟨Nat.le_add_right n j, hm⟩
              calc
                rank (f (n + j + 1))
                    ≤ rank (f (n + j)) := hkeep _ (hnot _ (Nat.le_add_right n j)) hidle
                _ ≤ rank (f n) := ihj hlt.le
        have hfind : rank (f (Nat.find hmore)) ≤ rank (f n) := by
          have := hbefore (Nat.find hmore - n) (Nat.add_sub_cancel' hle).le
          rwa [Nat.add_sub_cancel' hle] at this
        have hnext : n ≤ Nat.find hmore + 1 := hle.trans (Nat.le_succ _)
        rcases hdown _ (hnot _ hle) hmatters with hg | hlt
        · exact absurd hg (hnot _ hnext)
        · rcases ih _ (hlt.trans_le hfind) (Nat.find hmore + 1) rfl with
            ⟨m, hm, hg⟩ | ⟨m, hm, hstop⟩
          · exact Or.inl ⟨m, hnext.trans hm, hg⟩
          · exact Or.inr ⟨m, hnext.trans hm, hstop⟩
      · exact Or.inr ⟨n, le_refl n, fun k hk hm => hmore ⟨k, hk, hm⟩⟩

end Rank

namespace Halts

theorem not_infinite (h : Halts sys ok s) :
    ¬ ∃ f : ℕ → S, f 0 = s ∧ ∀ n, ∃ a o, ok (f n) a ∧ sys.step (f n) a = some (f (n + 1), o) :=
  fun hf => not_acc_iff_exists_descending_chain.2 hf h

/-- Some run ends where nothing is possible any more. -/
theorem exists_stuck (h : Halts sys ok s) :
    ∃ as os t, Run sys ok s as os t ∧ Stuck sys ok t := by
  induction h with
  | intro s _ ih =>
      by_cases hstuck : Stuck sys ok s
      · exact ⟨[], [], s, Run.nil s, hstuck⟩
      · simp only [Stuck, not_forall] at hstuck
        rcases hstuck with ⟨a, hok, hsome⟩
        rcases Option.ne_none_iff_exists'.1 hsome with ⟨⟨t, o⟩, hs⟩
        rcases ih t ⟨a, o, hok, hs⟩ with ⟨as, os, u, hrun, hu⟩
        exact ⟨a :: as, o ++ os, u, Run.cons hok hs hrun, hu⟩

end Halts

end System
end Library
end Xqueue
