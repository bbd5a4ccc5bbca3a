import Xqueue.Deployment
import Xqueue.Operations

/-!
# FailedPull — an error reply and the table

`get_submission` saves the row before it fetches the file map, and the error reply for a failed
fetch asks the grader to try again.

* `AlreadyPulled` : the row holds what the pull would write;
* `failed_pull_iff` : exactly when an error reply leaves the table as it was;
* `failed_fetch_takes` : after a failed fetch the retry finds the queue empty.
-/

namespace Xqueue

open Library
open Library.System

variable {cfg : Config} {env : PullEnv} {request : HttpRequest} {t : Table} {s : Submission}

/-- The request is answered with return code 1. -/
def isErrorReply : Except PyExc HttpResponse → Bool
  | .ok (.reply success _) => !success
  | _ => false

theorem isErrorReply_iff {result : Except PyExc HttpResponse} :
    isErrorReply result = true ↔ ∃ content, result = .ok (.reply false content) := by
  rcases result with e | ⟨_ | _, content⟩ | _ <;> simp [isErrorReply]

/-- The row holds the grader, the pull time and the key that the pull would write. -/
def AlreadyPulled (cfg : Config) (request : HttpRequest) (pullTime : DateTime) (s : Submission) :
    Prop :=
  s.pullTime = some pullTime ∧ s.graderId = getRequestIp request ∧
    s.pullkey = cfg.md5 (pullTime.str ++ PyStr.ofNat s.id)

theorem pulled_eq_self_iff {pullTime : DateTime} :
    s.pulled cfg request pullTime = s ↔ AlreadyPulled cfg request pullTime s := by
  cases s
  simp [Submission.pulled, AlreadyPulled, eq_comm]

/-- An error reply of a served pull is the one for a failed fetch, after the save. -/
theorem servePull_of_isErrorReply {fetch : HttpResult} {c : Submission} {now : DateTime}
    (h : isErrorReply (servePull cfg fetch now c t).result = true) :
    (∃ url, c.PointsTo url) ∧ fetch.isFailure = true ∧
      (servePull cfg fetch now c t).table = save now c t := by
  rcases isErrorReply_iff.1 h with ⟨content, hresult⟩
  cases hreply : pullReply fetch c with
  | ok response =>
      simp only [servePull, hreply, Except.ok.injEq] at hresult ⊢
      subst hresult
      rcases pullReply_eq_failure_iff.1 hreply with ⟨hpoints, hfetch, -⟩
      exact ⟨hpoints, hfetch, trivial⟩
  | error e =>
      simp only [servePull, hreply] at hresult
      split at hresult
      · cases hresult
      · cases hresult

/-- A request that is answered with an error reply leaves the table as it was, exactly if it does
not come to fetch the file map of a row in vain, or the row holds the pull already. -/
theorem failed_pull_iff (cfg : Config) (env : PullEnv) (request : HttpRequest) (t : Table) :
    (isErrorReply (getSubmission cfg env request t).result = true →
        (getSubmission cfg env request t).table = t) ↔
      ∀ queueName s, getSubmissionChecks cfg request = .ok queueName →
        getSingleUnretiredSubmission cfg env.plan env.queryTime queueName t = some s →
        (∃ url, s.PointsTo url) → env.fetch.isFailure = true →
          AlreadyPulled cfg request env.pullTime s := by
  have hcases := pulled_getSubmission cfg env request t
  generalize getSubmission cfg env request t = ended at hcases
  cases hcases with
  | refused hchecks => simp [hchecks]
  | empty hchecks hget =>
      simp only [implies_true, true_iff]
      intro queueName s hchecks' hget'
      rw [hchecks] at hchecks'
      cases hchecks'
      rw [hget] at hget'
      cases hget'
  | @served queueName s hchecks hget =>
      have hs := mem_of_getSingleSubmission hget
      let c := s.pulled cfg request env.pullTime
      have hunchanged : save env.pullTime c t = t ↔ AlreadyPulled cfg request env.pullTime s :=
        (save_eq_self_iff (c := c) hs rfl).trans pulled_eq_self_iff
      constructor
      · intro h queueName' s' hchecks' hget' hpoints hfetch
        rw [hchecks] at hchecks'
        cases hchecks'
        rw [hget] at hget'
        cases hget'
        rcases hpoints with ⟨url, hpoints⟩
        -- the error reply, after the save
        have hreply : pullReply env.fetch c = .ok (fetchError s.queueName) :=
          pullReply_of_notFetched (s := c) hpoints hfetch
        have hserve : servePull cfg env.fetch env.pullTime c t = ⟨save env.pullTime c t,
            [.pulled c (.ok (fetchError s.queueName))], .ok (fetchError s.queueName)⟩ := by
          simp only [servePull, hreply]
        rw [hserve] at h
        exact hunchanged.1 (h rfl)
      · intro h hresult
        rcases servePull_of_isErrorReply hresult with ⟨hpoints, hfetch, htable⟩
        rw [htable]
        exact hunchanged.2 (h queueName s hchecks hget hpoints hfetch)

/-- The fetch of the file map times out, so the grader is told to try again; the retry finds the
queue empty. -/
theorem failed_fetch_takes :
    ¬ (∀ t, (atomicSystem devSettings).Reachable KeyedTable.empty t →
      ∀ (env : PullEnv) (request : HttpRequest), request.isAuthenticated = true →
        isErrorReply (getSubmission devSettings env request t).result = true →
          (getSubmission devSettings env request t).table = t) ∧
      getSingleUnretiredSubmission devSettings .insertion (clockAt 1) (py "test-pull")
        (getSubmission devSettings ⟨.insertion, clockAt 1, clockAt 1, .timeout⟩
          (pullRequest (py "test-pull")) spilledTable).table = none := by
  refine ⟨fun h => ?_, by decide +kernel⟩
  have htable := h _ (reachable_tableAfter devSettings _ _)
    ⟨.insertion, clockAt 1, clockAt 1, .timeout⟩ (pullRequest (py "test-pull")) (by decide)
    (by decide +kernel : isErrorReply (getSubmission devSettings
      ⟨.insertion, clockAt 1, clockAt 1, .timeout⟩ (pullRequest (py "test-pull")) spilledTable).result =
        true)
  have htimes := congrArg (fun t => t.rows.map Submission.pullTime) htable
  revert htimes
  decide +kernel

end Xqueue
