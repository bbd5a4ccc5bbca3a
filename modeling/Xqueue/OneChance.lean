import Xqueue.Commands.RunConsumer
import Xqueue.PushQueue

/-!
# OneChance — one POST to the push grader

A worker saves the row only at the end of its round, so an exception on the way leaves the row as
available as it was.

* `CatchesAll` : the round of a worker that finds a submission gets through all its calls;
* `one_chance` : in every run of such rounds no submission is posted to its grader twice;
* `posted_twice` : a callback that the `requests` library rejects makes the grader get it again.
-/

namespace Xqueue

open Library
open Library.System

variable {cfg : Config} {t : Table} {os : List Output}

/-- If the round finds a submission, no call that it makes raises an exception that `_http_post`
lets through. -/
def CatchesAll (cfg : Config) (st : ConsumerState) : ConsumerAct → Prop
  | .round index env =>
      ∀ p s, st.workers[index]? = some p →
        getSingleUnpushedSubmission cfg env.plan env.queryTime p.worker.queueName st.table = some s →
          env.Caught
  | .monitor => True

/-- No row has been posted twice, and those that were are retired. -/
structure PostedOnce (os : List Output) (t : Table) : Prop where
  named : ∀ r ∈ t, NamesCallback r
  once : ∀ id, os.countP (isPushOf id) ≤ 1
  retired : ∀ id, os.countP (isPushOf id) ≠ 0 → ∃ r ∈ t, r.id = id ∧ r.retired = true

theorem postedOnce_deliverSubmission {worker : Worker} {env : PushEnv} (h : PostedOnce os t)
    (hcaught : ∀ s, getSingleUnpushedSubmission cfg env.plan env.queryTime worker.queueName t = some s →
      env.Caught) :
    PostedOnce (os ++ (worker.deliverSubmission cfg env t).outputs)
      (worker.deliverSubmission cfg env t).table := by
  cases hget : getSingleUnpushedSubmission cfg env.plan env.queryTime worker.queueName t with
  | none => simpa [Worker.deliverSubmission, hget] using h
  | some s =>
      have hs := mem_of_getSingleSubmission hget
      rcases work_of_caught worker (hcaught s hget) (h.named s hs) with ⟨c, hwork, hpushed, -⟩
      simp only [Worker.deliverSubmission, hget, hwork, Work.finish]
      have hsaved : ∀ r, r ∈ save env.returnTime c t ↔ r = c ∨ (r ∈ t ∧ r.id ≠ s.id) :=
        fun r => mem_save_of_mem hs hpushed.id
      -- a row that is selected has not been posted
      have hnone : os.countP (isPushOf s.id) = 0 := by
        by_contra hne
        rcases h.retired s.id hne with ⟨r, hr, hid, hret⟩
        rw [KeyedTable.eq_of_key_eq hr hs hid, retired_of_getSingleSubmission hget] at hret
        cases hret
      have hcount : ∀ id, (os ++ [pushOutput worker env.toWorkEnv s,
          .delivered (reportDelivery env.toWorkEnv s)]).countP (isPushOf id) =
            os.countP (isPushOf id) + if s.id = id then 1 else 0 := by
        intro id
        rw [List.countP_append]
        simp [isPushOf, pushOutput, List.countP_cons]
      refine ⟨?_, ?_, ?_⟩
      · intro r hr
        rcases (hsaved r).1 hr with rfl | ⟨hr, -⟩
        · have hheader : r.xqueueHeader = s.xqueueHeader := congrArg Origin.xqueueHeader hpushed.origin
          rcases h.named s hs with ⟨url, hurl⟩
          exact ⟨url, hheader ▸ hurl⟩
        · exact h.named r hr
      · intro id
        rw [hcount]
        by_cases hid : s.id = id
        · rw [← hid, hnone]
          simp
        · simpa [hid] using h.once id
      · intro id hne
        rw [hcount] at hne
        by_cases hid : s.id = id
        · exact ⟨c, (hsaved c).2 (Or.inl rfl), hpushed.id.trans hid, hpushed.retired⟩
        · rcases h.retired id (by simpa [hid] using hne) with ⟨r, hr, hrid, hret⟩
          exact ⟨r, (hsaved r).2 (Or.inr ⟨hr, fun heq => hid (heq.symm.trans hrid)⟩), hrid, hret⟩

/-- In a run of the workers and their monitor, in which every round that finds a submission gets
through its calls, no submission is posted to its grader more than once. -/
theorem one_chance {as : List ConsumerAct} {st : ConsumerState}
    (ht : (atomicSystem cfg).Reachable KeyedTable.empty t)
    (h : Run (consumerSystem cfg) (CatchesAll cfg) ⟨t, startWorkers cfg⟩ as os st) :
    ∀ id, os.countP (isPushOf id) ≤ 1 := by
  rcases ht with ⟨es, os₀, hrun⟩
  have hI : PostedOnce os st.table := by
    refine h.invariant (I := fun os st => PostedOnce os st.table)
      ⟨(recorded_of_run hrun).named, by simp, by simp⟩ ?_
    intro os st a st' o hI hok hstep
    cases a with
    | monitor =>
        simp only [consumerSystem, ConsumerState.step, Option.some.injEq, Prod.mk.injEq] at hstep
        rcases hstep with ⟨rfl, rfl⟩
        simpa using hI
    | round index env =>
        simp only [consumerSystem, ConsumerState.step] at hstep
        split at hstep
        · cases hstep
        · rename_i p hp
          split at hstep
          · cases hstep
            exact postedOnce_deliverSubmission hI fun s hget => hok p s hp hget
          · cases hstep
  exact hI.once

/-- One round for each of two jobs, and the monitor in between. -/
def twoRoundsMonitored : List ConsumerAct :=
  [.round 0 (roundAt 2 (.response 200 (py "graded")) (fun _ => .timeout)), .monitor,
    .round 0 (roundAt 3 .timeout (fun _ => .response 200 []))]

theorem twoRoundsMonitored_runs : ((consumerSystem pushSettings).exec
    ⟨twoJobs, startWorkers pushSettings⟩ twoRoundsMonitored).isSome := by
  decide +kernel

theorem one_chance_twoRounds :
    let os := (((consumerSystem pushSettings).exec ⟨twoJobs, startWorkers pushSettings⟩
      twoRoundsMonitored).get twoRoundsMonitored_runs).2
    (∀ id, os.countP (isPushOf id) ≤ 1) ∧
      [1, 2].map (fun id => os.countP (isPushOf id)) = [1, 1] := by
  have hcaught : ∀ a ∈ twoRoundsMonitored, ∀ st, CatchesAll pushSettings st a := by
    intro a ha st
    simp only [twoRoundsMonitored, List.mem_cons, List.not_mem_nil, or_false] at ha
    rcases ha with rfl | rfl | rfl
    · exact fun _ _ _ _ => ⟨rfl, fun _ _ _ => rfl⟩
    · trivial
    · exact fun _ _ _ _ => ⟨rfl, fun _ _ _ => rfl⟩
  have hrun := ((run_get twoRoundsMonitored_runs).of_forall_mem hcaught).mono fun st a h => h st
  exact ⟨one_chance (reachable_tableAfter _ _ _) hrun, by decide +kernel⟩

/-- The grader answers, but the callback is not a URL that the library takes; the process ends and
is replaced, and so on. -/
def rejectedCallback : List ConsumerAct :=
  let round := fun minute => ConsumerAct.round 0
    (roundAt minute (.response 200 (py "graded")) (fun _ => .raised .requestException))
  [round 2, .monitor, round 3]

theorem rejectedCallback_runs : ((consumerSystem pushSettings).exec
    ⟨twoJobs, startWorkers pushSettings⟩ rejectedCallback).isSome := by
  decide +kernel

/-- The grader gets the submission twice. -/
theorem posted_twice :
    ¬ (∀ t, (atomicSystem pushSettings).Reachable KeyedTable.empty t → ∀ as os st,
      Run (consumerSystem pushSettings) Free ⟨t, startWorkers pushSettings⟩ as os st →
        ∀ id, os.countP (isPushOf id) ≤ 1) := by
  intro h
  have := h _ (reachable_tableAfter _ _ _) _ _ _ (run_get rejectedCallback_runs) 1
  revert this
  decide +kernel

end Xqueue
