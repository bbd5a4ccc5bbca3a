import Mathlib.Data.List.Basic

/-!
# Transition — runs of a labelled system

A `System` is a partial step function: from a state, an action yields the next state and
the outputs the step emits, or nothing when the action is not enabled.  This file provides:

* `System.Run ok s as os t` : a run from `s` to `t` that performs the actions `as`, emits
  the outputs `os`, and takes every step from a state and with an action that meet `ok`;
* `Run.invariant` : a property of outputs and state that a step preserves holds at the end of
  every run;
* `Run.simulated` : runs of a system whose steps another one can follow;
* `System.execWhile`, `System.exec` : the executable counterpart, with `run_of_execWhile`;
* `Run.exists_first_failure` : a run that leaves `ok` has a first step that does;
* `System.Visits` : the states that a run goes through.
-/

namespace Xqueue
namespace Library

universe u v w u' v'

/-- A labelled system: actions move the state and emit outputs. -/
structure System (S : Type u) (A : Type v) (O : Type w) where
  step : S → A → Option (S × List O)

namespace System

variable {S : Type u} {A : Type v} {O : Type w} {sys : System S A O}
variable {ok ok' : S → A → Prop} {s t u : S} {as bs : List A} {os ps : List O}

/-! ## Runs -/

inductive Run (sys : System S A O) (ok : S → A → Prop) : S → List A → List O → S → Prop
  | nil (s : S) : Run sys ok s [] [] s
  | snoc {s t u : S} {as : List A} {os o : List O} {a : A} :
      Run sys ok s as os t → ok t a → sys.step t a = some (u, o) →
        Run sys ok s (as ++ [a]) (os ++ o) u

/-- The condition that every step meets. -/
abbrev Free : S → A → Prop := fun _ _ => True

/-- `t` is reached from `s` by some run. -/
def Reachable (sys : System S A O) (s t : S) : Prop :=
  ∃ as os, Run sys Free s as os t

theorem Reachable.refl (s : S) : sys.Reachable s s :=
  ⟨[], [], Run.nil s⟩

namespace Run

theorem mono (h : Run sys ok s as os t) (hok : ∀ s a, ok s a → ok' s a) :
    Run sys ok' s as os t := by
  induction h with
  | nil => exact Run.nil s
  | snoc _ hstep hs ih => exact ih.snoc (hok _ _ hstep) hs

theorem free (h : Run sys ok s as os t) : Run sys Free s as os t :=
  h.mono (fun _ _ _ => trivial)

/-- A run whose actions all meet a condition is a run under that condition as well. -/
theorem and_forall_mem {c : A → Prop} (h : Run sys ok s as os t) (hc : ∀ a ∈ as, c a) :
    Run sys (fun s a => ok s a ∧ c a) s as os t := by
  induction h with
  | nil => exact Run.nil s
  | snoc _ hok hs ih =>
      exact (ih fun a ha => hc a (List.mem_append_left _ ha)).snoc ⟨hok, hc _ (by simp)⟩ hs

theorem of_forall_mem {c : A → Prop} (h : Run sys Free s as os t) (hc : ∀ a ∈ as, c a) :
    Run sys (fun _ a => c a) s as os t :=
  (h.and_forall_mem hc).mono fun _ _ h => h.2

theorem reachable (h : Run sys ok s as os t) : sys.Reachable s t :=
  ⟨as, os, h.free⟩

/-- Induction over a run: the outputs so far and the state reached. -/
theorem invariant {I : List O → S → Prop} (h : Run sys ok s as os t) (h0 : I [] s)
    (hstep : ∀ os t a u o, I os t → ok t a → sys.step t a = some (u, o) → I (os ++ o) u) :
    I os t := by
  induction h with
  | nil => exact h0
  | snoc _ hok hs ih => exact hstep _ _ _ _ _ ih hok hs

theorem append (h₁ : Run sys ok s as os t) (h₂ : Run sys ok t bs ps u) :
    Run sys ok s (as ++ bs) (os ++ ps) u := by
  induction h₂ with
  | nil => simpa using h₁
  | snoc _ hok hs ih =>
      have := ih.snoc hok hs
      simpa [List.append_assoc] using this

theorem single {a : A} {o : List O} (hok : ok s a) (hs : sys.step s a = some (t, o)) :
    Run sys ok s [a] o t := by
  have h : Run sys ok s [] [] s := Run.nil s
  simpa using h.snoc hok hs

theorem cons {a : A} {o : List O} (hok : ok s a) (hs : sys.step s a = some (t, o))
    (h : Run sys ok t as os u) : Run sys ok s (a :: as) (o ++ os) u := by
  simpa using (single hok hs).append h

/-- If another system can follow every step by a run between the images of its ends, it can
follow every run. -/
theorem simulated {S' : Type u'} {A' : Type v'} {sys' : System S' A' O} (f : S → S')
    (hstep : ∀ s a t o, sys.step s a = some (t, o) → ∃ bs, Run sys' Free (f s) bs o (f t))
    (h : Run sys ok s as os t) : ∃ bs, Run sys' Free (f s) bs os (f t) := by
  induction h with
  | nil => exact ⟨[], Run.nil (f s)⟩
  | snoc _ _ hs ih =>
      rcases ih with ⟨bs, hrun⟩
      rcases hstep _ _ _ _ hs with ⟨bs', hrun'⟩
      exact ⟨bs ++ bs', hrun.append hrun'⟩

/-- The last step of a run that performs `as ++ [a]`. -/
theorem of_snoc {a : A} (h : Run sys ok s (as ++ [a]) os u) :
    ∃ os' t o, Run sys ok s as os' t ∧ ok t a ∧ sys.step t a = some (u, o) ∧ os = os' ++ o := by
  generalize hbs : as ++ [a] = bs at h
  cases h with
  | nil => simp at hbs
  | @snoc t _ as' os' o a' hrun hok hs =>
      rcases List.append_inj' hbs rfl with ⟨rfl, hlast⟩
      cases hlast
      exact ⟨os', t, o, hrun, hok, hs, rfl⟩

/-- The actions determine the outputs and the state that a run reaches. -/
theorem deterministic (h : Run sys ok s as os t) (h' : Run sys ok' s as ps u) : os = ps ∧ t = u := by
  induction h generalizing ps u with
  | nil =>
      generalize hbs : ([] : List A) = bs at h'
      cases h' with
      | nil => exact ⟨rfl, rfl⟩
      | snoc => simp at hbs
  | snoc _ _ hs ih =>
      rcases h'.of_snoc with ⟨os', m, o, hrun, -, hs', rfl⟩
      rcases ih hrun with ⟨rfl, rfl⟩
      rw [hs, Option.some.injEq, Prod.mk.injEq] at hs'
      rcases hs' with ⟨rfl, rfl⟩
      exact ⟨rfl, rfl⟩

/-- A run whose steps do not all meet `ok` splits at the first one that does not. -/
theorem exists_first_failure (h : Run sys Free s as os t) (hbad : ¬ Run sys ok s as os t) :
    ∃ as₁ a as₂ os₁ o os₂ m n, as = as₁ ++ a :: as₂ ∧ os = os₁ ++ o ++ os₂ ∧
      Run sys ok s as₁ os₁ m ∧ ¬ ok m a ∧ sys.step m a = some (n, o) ∧
      Run sys Free n as₂ os₂ t := by
  induction h with
  | nil => exact absurd (Run.nil s) hbad
  | @snoc t u as os o a hrun _ hs ih =>
      by_cases hprev : Run sys ok s as os t
      · have hnot : ¬ ok t a := fun hok => hbad (hprev.snoc hok hs)
        exact ⟨as, a, [], os, o, [], t, u, by simp, by simp, hprev, hnot, hs, Run.nil u⟩
      · rcases ih hprev with ⟨as₁, b, as₂, os₁, p, os₂, m, n, rfl, rfl, hr, hnot, hstep, hrest⟩
        refine ⟨as₁, b, as₂ ++ [a], os₁, p, os₂ ++ o, m, n, by simp, by simp, hr, hnot, hstep, ?_⟩
        exact hrest.snoc trivial hs

/-- A property that has come to hold was brought about by a last step, and kept by all later ones. -/
theorem exists_origin {P : S → Prop} (h : Run sys ok s as os t) (h0 : ¬ P s) (ht : P t) :
    ∃ before a after os' u v o, as = before ++ a :: after ∧ Run sys ok s before os' u ∧ ¬ P u ∧
      sys.step u a = some (v, o) ∧ P v ∧
      ∀ b ∈ after, ∃ w w' o', P w ∧ P w' ∧ sys.step w b = some (w', o') := by
  induction h with
  | nil => exact absurd ht h0
  | @snoc m t as os o a hrun hok hs ih =>
      by_cases hm : P m
      · rcases ih hm with ⟨before, a', after, os', u, v, o', rfl, hbefore, hu, hstep, hv, hkept⟩
        refine ⟨before, a', after ++ [a], os', u, v, o', by simp, hbefore, hu, hstep, hv, ?_⟩
        intro b hb
        rcases List.mem_append.1 hb with hb | hb
        · exact hkept b hb
        · rw [List.mem_singleton.1 hb]
          exact ⟨m, t, o, hm, ht, hs⟩
      · exact ⟨as, a, [], os, m, t, o, by simp, hrun, hm, hs, ht, by simp⟩

end Run

/-- `t` is a state that the run of `as` from `s` goes through. -/
def Visits (sys : System S A O) (s : S) (as : List A) (t : S) : Prop :=
  ∃ bs os, bs <+: as ∧ Run sys Free s bs os t

theorem forall_visits_nil {I : S → Prop} : (∀ t, sys.Visits s [] t → I t) ↔ I s := by
  constructor
  · exact fun h => h s ⟨[], [], List.prefix_rfl, Run.nil s⟩
  · rintro h t ⟨bs, os, hpre, hrun⟩
    rw [List.prefix_nil.1 hpre] at hrun
    have hnil : Run sys Free s [] [] s := Run.nil s
    rwa [← (hnil.deterministic hrun).2]

/-- One more step visits one more state. -/
theorem forall_visits_snoc {I : S → Prop} {a : A} {o : List O} (h : Run sys ok s as os t)
    (hs : sys.step t a = some (u, o)) :
    (∀ v, sys.Visits s (as ++ [a]) v → I v) ↔ (∀ v, sys.Visits s as v → I v) ∧ I u := by
  have hlast : Run sys Free s (as ++ [a]) (os ++ o) u := h.free.snoc trivial hs
  constructor
  · intro hall
    refine ⟨?_, hall u ⟨_, _, List.prefix_rfl, hlast⟩⟩
    rintro v ⟨bs, ps, hpre, hrun⟩
    exact hall v ⟨bs, ps, hpre.trans (List.prefix_append as [a]), hrun⟩
  · rintro ⟨hall, hu⟩ v ⟨bs, ps, hpre, hrun⟩
    rcases List.prefix_concat_iff.1 (by simpa using hpre) with rfl | hpre
    · rwa [← (hlast.deterministic hrun).2]
    · exact hall v ⟨bs, ps, hpre, hrun⟩

theorem Reachable.invariant {I : S → Prop} (h : sys.Reachable s t) (h0 : I s)
    (hstep : ∀ t a u o, I t → sys.step t a = some (u, o) → I u) : I t := by
  rcases h with ⟨as, os, hrun⟩
  exact hrun.invariant (I := fun _ s => I s) h0 (fun _ t a u o hI _ hs => hstep t a u o hI hs)

/-! ## Execution -/

/-- Perform a list of actions, each only if it meets `ok`, collecting the outputs. -/
def execWhile (sys : System S A O) (ok : S → A → Bool) : S → List A → Option (S × List O)
  | s, [] => some (s, [])
  | s, a :: as =>
      if ok s a then
        match sys.step s a with
        | none => none
        | some (t, o) =>
            match execWhile sys ok t as with
            | none => none
            | some (u, os) => some (u, o ++ os)
      else none

/-- Perform a list of actions. -/
def exec (sys : System S A O) : S → List A → Option (S × List O) :=
  sys.execWhile (fun _ _ => true)

theorem run_of_execWhile {ok : S → A → Bool} : ∀ {s : S} {as : List A} {os : List O} {t : S},
    sys.execWhile ok s as = some (t, os) → Run sys (fun s a => ok s a = true) s as os t := by
  intro s as
  induction as generalizing s with
  | nil =>
      intro os t h
      simp only [execWhile, Option.some.injEq, Prod.mk.injEq] at h
      rcases h with ⟨rfl, rfl⟩
      exact Run.nil s
  | cons a as ih =>
      intro os t h
      by_cases hok : ok s a = true
      · rcases hs : sys.step s a with _ | ⟨m, o⟩
        · simp [execWhile, hok, hs] at h
        · rcases he : sys.execWhile ok m as with _ | ⟨n, os'⟩
          · simp [execWhile, hok, hs, he] at h
          · simp only [execWhile, hok, hs, he, if_true, Option.some.injEq, Prod.mk.injEq] at h
            rcases h with ⟨rfl, rfl⟩
            exact Run.cons hok hs (ih he)
      · simp [execWhile, hok] at h

/-- The state and the outputs of an execution that does not get stuck. -/
theorem run_get_while {ok : S → A → Bool} {as : List A} (h : (sys.execWhile ok s as).isSome) :
    Run sys (fun s a => ok s a = true) s as ((sys.execWhile ok s as).get h).2
      ((sys.execWhile ok s as).get h).1 :=
  run_of_execWhile (Option.some_get h).symm

theorem run_get {as : List A} (h : (sys.exec s as).isSome) :
    Run sys Free s as ((sys.exec s as).get h).2 ((sys.exec s as).get h).1 :=
  (run_get_while h).free

end System

end Library
end Xqueue
