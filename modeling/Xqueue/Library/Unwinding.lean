import Xqueue.Library.Transition

/-!
# Unwinding — the steps that an observer can do without

An observer looks at the states of a system through a relation: two states that it relates look
alike.  Some of the steps concern the observer.

* `Unwinds` : a step that concerns the observer does the same in states that look alike, and the
  other steps do not show;
* `Own` : a run, and what of it concerns the observer;
* `Run.purged` : a run from which the other steps are removed ends in a state that looks alike.
-/

namespace Xqueue
namespace Library
namespace System

universe u v w

variable {S : Type u} {A : Type v} {O : Type w}

/-- Alike states stay alike, whether the steps that do not concern the observer are taken or not. -/
structure Unwinds (sys : System S A O) (ok : S → A → Prop) (alike : S → S → Prop)
    (concerns : S → A → Prop) : Prop where
  own : ∀ s u a t o, alike s u → ok s a → concerns s a → sys.step s a = some (t, o) →
    concerns u a ∧ ∃ v, sys.step u a = some (v, o) ∧ alike t v
  other : ∀ s u a t o, alike s u → ok s a → ¬ concerns s a → sys.step s a = some (t, o) → alike t u

/-- In a run of the actions `as` from `s` to `t` those that concern the observer are `bs`, and `ps` is
what they emit. -/
inductive Own (sys : System S A O) (concerns : S → A → Prop) :
    S → List A → List A → List O → S → Prop
  | nil (s : S) : Own sys concerns s [] [] [] s
  | own {s t u : S} {as bs : List A} {ps o : List O} {a : A} :
      Own sys concerns s as bs ps t → concerns t a → sys.step t a = some (u, o) →
        Own sys concerns s (as ++ [a]) (bs ++ [a]) (ps ++ o) u
  | other {s t u : S} {as bs : List A} {ps o : List O} {a : A} :
      Own sys concerns s as bs ps t → ¬ concerns t a → sys.step t a = some (u, o) →
        Own sys concerns s (as ++ [a]) bs ps u

variable {sys : System S A O} {ok : S → A → Prop} {alike : S → S → Prop} {concerns : S → A → Prop}
  {s t u : S} {as : List A} {os : List O}

/-- The steps that concern the observer, on their own, give the outputs that they gave among the
others, and lead to a state that looks alike. -/
theorem Run.purged (h : Run sys ok s as os t) (hunwinds : Unwinds sys ok alike concerns)
    (hstart : alike s u) :
    ∃ bs ps v, Own sys concerns s as bs ps t ∧ Run sys concerns u bs ps v ∧ alike t v := by
  induction h with
  | nil => exact ⟨[], [], u, Own.nil _, Run.nil u, hstart⟩
  | @snoc m t as os o a hrun hok hs ih =>
      rcases ih with ⟨bs, ps, v, hown, hpurged, halike⟩
      by_cases hconcerns : concerns m a
      · rcases hunwinds.own m v a t o halike hok hconcerns hs with ⟨hconcerns', v', hstep, halike'⟩
        exact ⟨bs ++ [a], ps ++ o, v', hown.own hconcerns hs, hpurged.snoc hconcerns' hstep, halike'⟩
      · -- the observer sees nothing of the step, and the purged run stays where it is
        exact ⟨bs, ps, v, hown.other hconcerns hs, hpurged,
          hunwinds.other m v a t o halike hok hconcerns hs⟩

end System
end Library
end Xqueue
