import Mathlib.Data.List.Perm.Basic
import Xqueue.Library.Transition

/-!
# Deferral — runs that commit their operations one at a time

A system runs many operations side by side, and another one performs each of them in a single
step.  Every step of the first belongs to an operation, named by a key.  The second follows it by
doing nothing, or by committing the operation; the outputs of an operation that has not been
committed are held back:

* `held`, `withdraw` : the outputs that one operation holds back, and what the others do;
* `Follows` : what the second system makes of one step of the first;
* `Run.deferred` : it follows whole runs, up to the order of the outputs.
-/

namespace Xqueue
namespace Library

universe u v w u' v' x

variable {K : Type x} {O : Type w} [DecidableEq K] {k l : K} {pend : List (K × O)} {o : List O}

/-! ## Outputs held back -/

/-- What the operation `k` has emitted since its last commit. -/
def held (pend : List (K × O)) (k : K) : List O :=
  (pend.filter (fun e => e.1 = k)).map Prod.snd

/-- What the other operations hold back. -/
def withdraw (pend : List (K × O)) (k : K) : List (K × O) :=
  pend.filter (fun e => ¬ e.1 = k)

/-- The operation `k` emits more. -/
def defer (pend : List (K × O)) (k : K) (o : List O) : List (K × O) :=
  pend ++ o.map (fun e => (k, e))

theorem held_defer : held (defer pend k o) k = held pend k ++ o := by
  have hmine : (o.map (fun e => (k, e))).filter (fun e => e.1 = k) = o.map (fun e => (k, e)) :=
    List.filter_eq_self.2 fun e he => by
      rcases List.mem_map.1 he with ⟨e', -, rfl⟩
      simp
  rw [held, defer, List.filter_append, hmine, List.map_append, held, List.map_map]
  congr 1
  exact List.map_id o

theorem held_defer_of_ne (h : l ≠ k) : held (defer pend k o) l = held pend l := by
  have hother : (o.map (fun e => (k, e))).filter (fun e => e.1 = l) = [] :=
    List.filter_eq_nil_iff.2 fun e he => by
      rcases List.mem_map.1 he with ⟨e', -, rfl⟩
      simpa using h.symm
  rw [held, defer, List.filter_append, hother, List.append_nil, held]

theorem held_withdraw : held (withdraw pend k) k = [] := by
  simp [held, withdraw, List.filter_filter]

theorem held_withdraw_of_ne (h : l ≠ k) : held (withdraw pend k) l = held pend l := by
  rw [held, withdraw, List.filter_filter, held]
  congr 1
  refine List.filter_congr fun e _ => ?_
  by_cases he : e.1 = l
  · simp [he, h]
  · simp [he]

/-- Every output that is held back belongs to its operation. -/
theorem mem_held {e : O} : e ∈ held pend k ↔ (k, e) ∈ pend := by
  simp [held]

theorem perm_held_withdraw :
    (held pend k ++ (withdraw pend k).map Prod.snd).Perm (pend.map Prod.snd) := by
  have h : (pend.filter (fun e => decide (e.1 = k)) ++
      pend.filter (fun e => !decide (e.1 = k))).Perm pend := List.filter_append_perm _ pend
  simpa [held, withdraw, List.map_append] using h.map Prod.snd

/-! ## Following a run -/

namespace System

variable {S : Type u} {A : Type v} {S' : Type u'} {A' : Type v'}
variable {sys : System S A O} {sys' : System S' A' O}
variable {ok : S → A → Prop} {ok' : S' → A' → Prop} {key : A → K} {key' : A' → K}

/-- A step of the operation `k` that emits `o` is put off, or commits the operation with all that
it has emitted. -/
inductive Follows (sys' : System S' A' O) (ok' : S' → A' → Prop) (key' : A' → K) (k : K) (o : List O)
    (pend : List (K × O)) (s' : S') : List A' → List (K × O) → S' → Prop
  | defers : Follows sys' ok' key' k o pend s' [] (defer pend k o) s'
  | commits {b : A'} {t' : S'} : key' b = k → ok' s' b →
      sys'.step s' b = some (t', held pend k ++ o) →
        Follows sys' ok' key' k o pend s' [b] (withdraw pend k) t'

/-- Each step is matched by at most one step, of the same operation. -/
def Matches (key : A → K) (key' : A' → K) (a : A) (bs : List A') : Prop :=
  bs.length ≤ 1 ∧ ∀ b ∈ bs, key' b = key a

variable {s' t' : S'} {bs : List A'} {pend' : List (K × O)}

namespace Follows

theorem run (h : Follows sys' ok' key' k o pend s' bs pend' t') :
    ∃ ps, Run sys' ok' s' bs ps t' ∧
      (ps ++ pend'.map Prod.snd).Perm (pend.map Prod.snd ++ o) := by
  cases h with
  | defers =>
      refine ⟨[], Run.nil s', ?_⟩
      simp [defer, List.map_map, Function.comp_def]
  | commits _ hok hs =>
      refine ⟨_, Run.single hok hs, ?_⟩
      calc
        List.Perm (held pend k ++ o ++ (withdraw pend k).map Prod.snd)
            (held pend k ++ (withdraw pend k).map Prod.snd ++ o) := by
              rw [List.append_assoc, List.append_assoc]
              exact List.perm_append_comm.append_left _
        List.Perm _ (pend.map Prod.snd ++ o) := perm_held_withdraw.append_right o

theorem matches_key {a : A} (h : Follows sys' ok' key' (key a) o pend s' bs pend' t') :
    Matches key key' a bs := by
  cases h with
  | defers => exact ⟨Nat.zero_le 1, by simp⟩
  | commits hkey => exact ⟨Nat.le_refl 1, by simpa using hkey⟩

end Follows

/-- If every step is followed, every run is: the second system comes to a state that is related to
the one reached, and has emitted all outputs but those that are held back. -/
theorem Run.deferred (sys' : System S' A' O) (ok' : S' → A' → Prop) (key : A → K) (key' : A' → K)
    {R : S → List (K × O) → S' → Prop} {s t : S} {as : List A} {os : List O}
    (h : Run sys ok s as os t) (h0 : R s [] s')
    (hstep : ∀ {s a t o pend s'}, R s pend s' → ok s a → sys.step s a = some (t, o) →
      ∃ bs pend' t', Follows sys' ok' key' (key a) o pend s' bs pend' t' ∧ R t pend' t') :
    ∃ blocks ps pend t', List.Forall₂ (Matches key key') as blocks ∧
      Run sys' ok' s' blocks.flatten ps t' ∧ R t pend t' ∧ os.Perm (ps ++ pend.map Prod.snd) := by
  induction h with
  | nil => exact ⟨[], [], [], s', List.Forall₂.nil, Run.nil s', h0, List.Perm.refl _⟩
  | @snoc m u as os o a _ hok hs ih =>
      rcases ih with ⟨blocks, ps, pend, m', hmatch, hrun, hR, hperm⟩
      rcases hstep hR hok hs with ⟨bs, pend', u', hfollows, hR'⟩
      rcases hfollows.run with ⟨qs, hrun', hperm'⟩
      refine ⟨blocks ++ [bs], ps ++ qs, pend', u', ?_, ?_, hR', ?_⟩
      · exact List.rel_append hmatch (List.Forall₂.cons hfollows.matches_key List.Forall₂.nil)
      · simpa using hrun.append hrun'
      · calc
          List.Perm (os ++ o) (ps ++ pend.map Prod.snd ++ o) := hperm.append_right o
          List.Perm _ (ps ++ (qs ++ pend'.map Prod.snd)) := by
                rw [List.append_assoc]
                exact hperm'.symm.append_left ps
          _ = ps ++ qs ++ pend'.map Prod.snd := (List.append_assoc _ _ _).symm

end System

end Library
end Xqueue
