import Xqueue.ExtInterface
import Xqueue.Commands.RetireSubmissions

/-!
# LifeCycle — what an operation can do to a row

Five operations read a row, work on the instance and save it whole.  `Task` names them and
`Task.work` is the work of each, as its view or command computes it.  This file says once what
that work can write and emit, so that no later proof unfolds it again:

* `Task.Writes` and `writes_of_work` : the instance to save, by operation and outcome;
* `mem_outputs_of_work` : every output concerns the row that was read;
* `origin_of_work` : the columns that a submit request has set are never written.
-/

namespace Xqueue

open Library

inductive Task where
  | pull (request : HttpRequest)
  | put (request : HttpRequest) (graderReply : PyStr)
  | push (worker : Worker)
  | retireFailed (force : Bool)
  | retireOld

/-- What the operation does between its read and its save. -/
def Task.work (cfg : Config) (env : WorkEnv) : Task → Submission → Work
  | .pull request, s => ([], s.pull cfg request env.now)
  | .put request graderReply, s => s.putResult cfg env request graderReply
  | .push worker, s => worker.work env s
  | .retireFailed force, s => s.retireFailed force env.lms
  | .retireOld, s => s.retireOld env.lms

/-- The save of the instance, and for a pull the reply that follows it. -/
def Task.finish (cfg : Config) (fetch : HttpResult) (now : DateTime) (s : Submission) (t : Table) :
    Task → Table × List Output
  | .pull _ => ((servePull cfg fetch now s t).table, (servePull cfg fetch now s t).outputs)
  | .put _ _ => (save now s t, [])
  | .push _ => (save now s t, [])
  | .retireFailed _ => (save now s t, [])
  | .retireOld => (save now s t, [])

/-! ## The columns a submit request sets -/

structure Origin where
  requesterId : PyStr
  lmsCallbackUrl : PyStr
  queueName : PyStr
  xqueueHeader : PyStr
  xqueueBody : PyStr
  s3Keys : PyStr
  s3Urls : PyStr
  deriving DecidableEq

def Submission.origin (s : Submission) : Origin where
  requesterId := s.requesterId
  lmsCallbackUrl := s.lmsCallbackUrl
  queueName := s.queueName
  xqueueHeader := s.xqueueHeader
  xqueueBody := s.xqueueBody
  s3Keys := s.s3Keys
  s3Urls := s.s3Urls

/-! ## The instances that are saved -/

/-- After a pull. -/
def Submission.pulled (cfg : Config) (request : HttpRequest) (pullTime : DateTime)
    (s : Submission) : Submission :=
  { s with
    graderId := getRequestIp request
    pullTime := some pullTime
    pullkey := cfg.md5 (pullTime.str ++ PyStr.ofNat s.id) }

/-- After a result that passed the key check. -/
def Submission.returned (cfg : Config) (returnTime : DateTime) (graderReply : PyStr) (acked : Bool)
    (s : Submission) : Submission :=
  let numFailures := if acked then s.numFailures else s.numFailures + 1
  { s with
    returnTime := some returnTime
    graderReply := graderReply
    lmsAck := acked
    numFailures := numFailures
    retired := acked || decide (cfg.maxNumberOfFailures < numFailures) }

/-- After a push, with the reply and the failures that its outcome leaves. -/
def Submission.pushed (worker : Worker) (env : WorkEnv) (graderReply : PyStr) (numFailures : Nat)
    (acked : Bool) (s : Submission) : Submission :=
  { s with
    graderId := worker.workerUrl
    pushTime := some env.now
    returnTime := some env.returnTime
    graderReply := graderReply
    numFailures := numFailures
    lmsAck := acked
    retired := true }

/-- After a notice of the retiring commands. -/
def Submission.notified (acked retired : Bool) (s : Submission) : Submission :=
  { s with lmsAck := acked, retired := retired }

/-- The push of a row, as an output. -/
def pushOutput (worker : Worker) (env : WorkEnv) (s : Submission) : Output :=
  .pushed ⟨s.id, worker.workerUrl, graderPayload s, env.grader⟩

variable {cfg : Config} {env : WorkEnv} {task : Task} {s c : Submission} {os : List Output}

/-- What each operation saves, and what it has emitted before. -/
inductive Task.Writes (cfg : Config) (env : WorkEnv) (s : Submission) :
    Task → List Output → Submission → Prop
  | pulled (request : HttpRequest) :
      Writes cfg env s (.pull request) [] (s.pulled cfg request env.now)
  | returned (request : HttpRequest) (graderReply : PyStr) (acked : Bool) :
      (s.deliver env.lms graderReply).outcome = .ok acked →
        Writes cfg env s (.put request graderReply)
          [.accepted request s, .delivered (s.deliver env.lms graderReply)]
          (s.returned cfg env.now graderReply acked)
  | graded (worker : Worker) (graderReply : PyStr) (acked : Bool) :
      env.grader = .response 200 graderReply →
      (s.deliver env.lms graderReply).outcome = .ok acked →
        Writes cfg env s (.push worker)
          [pushOutput worker env s, .delivered (s.deliver env.lms graderReply)]
          (s.pushed worker env graderReply s.numFailures acked)
  | ungraded (worker : Worker) (message : PyStr) (acked : Bool) :
      httpPost env.grader = .ok (false, message) →
      (s.deliver env.lms failureMessage).outcome = .ok acked →
        Writes cfg env s (.push worker)
          [pushOutput worker env s, .delivered (s.deliver env.lms failureMessage)]
          (s.pushed worker env s.graderReply (s.numFailures + 1) acked)
  | forced : Writes cfg env s (.retireFailed true) [] s.retire
  | notified (acked : Bool) :
      (s.deliver env.lms failureMessage).outcome = .ok acked →
        Writes cfg env s (.retireFailed false) [.delivered (s.deliver env.lms failureMessage)]
          (s.notified acked acked)
  | retiredOld (acked : Bool) :
      (s.deliver env.lms failureMessage).outcome = .ok acked →
        Writes cfg env s .retireOld [.delivered (s.deliver env.lms failureMessage)]
          (s.notified acked true)

theorem pull_eq_ok {request : HttpRequest} {pullTime : DateTime} :
    s.pull cfg request pullTime = .ok (s.pulled cfg request pullTime) := by
  have hid : PyStr.Encodable (PyStr.ofNat s.id) :=
    PyStr.encodable_of_digits (fun c hc => PyStr.isDigit_of_mem_ofNat hc)
  have hseed : PyStr.Encodable (pullTime.str ++ PyStr.ofNat s.id) :=
    PyStr.encodable_append.2 ⟨DateTime.encodable_str, hid⟩
  simp [Submission.pull, makeHashkey_of_encodable hseed, Submission.pulled]

/-! ## What the work can do -/

theorem map_outcome_eq_ok {d : Delivery} {assign : Bool → Submission} :
    d.outcome.map assign = .ok c ↔ ∃ acked, d.outcome = .ok acked ∧ c = assign acked := by
  cases h : d.outcome with
  | error e => simp [Except.map]
  | ok acked => simp [Except.map, eq_comm]

/-- The delivery of `put_result`, and its assignments by the outcome. -/
theorem putResult_eq {request : HttpRequest} {graderReply : PyStr} :
    s.putResult cfg env request graderReply =
      ([.accepted request s, .delivered (s.deliver env.lms graderReply)],
        (s.deliver env.lms graderReply).outcome.map
          (fun acked => s.returned cfg env.now graderReply acked)) := by
  refine Prod.ext rfl ?_
  -- the row that is assigned for each outcome
  refine congrArg (fun assign => (s.deliver env.lms graderReply).outcome.map assign) ?_
  funext acked
  cases acked with
  | false =>
      by_cases hmax : cfg.maxNumberOfFailures < s.numFailures + 1 <;>
        simp [Submission.returned, hmax]
  | true =>
      by_cases hmax : cfg.maxNumberOfFailures < s.numFailures <;> simp [Submission.returned, hmax]

theorem putResult_eq_ok {request : HttpRequest} {graderReply : PyStr} :
    s.putResult cfg env request graderReply = (os, .ok c) ↔
      ∃ acked, (s.deliver env.lms graderReply).outcome = .ok acked ∧
        os = [.accepted request s, .delivered (s.deliver env.lms graderReply)] ∧
        c = s.returned cfg env.now graderReply acked := by
  rw [putResult_eq, Prod.mk.injEq, map_outcome_eq_ok]
  constructor
  · rintro ⟨rfl, acked, hout, rfl⟩
    exact ⟨acked, hout, rfl, rfl⟩
  · rintro ⟨acked, hout, rfl, rfl⟩
    exact ⟨rfl, acked, hout, rfl⟩

theorem writes_of_work (h : task.work cfg env s = (os, .ok c)) : Task.Writes cfg env s task os c := by
  cases task with
  | pull request =>
      simp only [Task.work, pull_eq_ok, Prod.mk.injEq, Except.ok.injEq] at h
      rcases h with ⟨rfl, rfl⟩
      exact Task.Writes.pulled request
  | put request graderReply =>
      rcases putResult_eq_ok.1 h with ⟨acked, hd, rfl, rfl⟩
      exact Task.Writes.returned request graderReply acked hd
  | push worker =>
      rcases hgrader : httpPost env.grader with e | ⟨_ | _, graderReply⟩
      · -- the exception of the push escapes
        simp [Task.work, Worker.work, hgrader] at h
      · simp only [Task.work, Worker.work, hgrader, Prod.mk.injEq] at h
        rcases h with ⟨rfl, hassign⟩
        rcases map_outcome_eq_ok.1 hassign with ⟨acked, hd, rfl⟩
        exact Task.Writes.ungraded worker graderReply acked hgrader hd
      · simp only [Task.work, Worker.work, hgrader, Prod.mk.injEq] at h
        rcases h with ⟨rfl, hassign⟩
        rcases map_outcome_eq_ok.1 hassign with ⟨acked, hd, rfl⟩
        exact Task.Writes.graded worker graderReply acked (httpPost_eq_true hgrader) hd
  | retireFailed force =>
      cases force with
      | true =>
          -- no notice
          cases h
          exact Task.Writes.forced
      | false =>
          rcases Prod.mk.inj h with ⟨rfl, hassign⟩
          rcases map_outcome_eq_ok.1 hassign with ⟨acked, hd, rfl⟩
          exact Task.Writes.notified acked hd
  | retireOld =>
      rcases Prod.mk.inj h with ⟨rfl, hassign⟩
      rcases map_outcome_eq_ok.1 hassign with ⟨acked, hd, rfl⟩
      exact Task.Writes.retiredOld acked hd

/-- What a push that gets through saves, and what it has emitted. -/
theorem pushed_of_work {worker : Worker} (cfg : Config) (h : worker.work env s = (os, .ok c)) :
    ∃ body graderReply numFailures acked,
      os = [pushOutput worker env s, .delivered (s.deliver env.lms body)] ∧
        c = s.pushed worker env graderReply numFailures acked := by
  have hwork : (Task.push worker).work cfg env s = (os, .ok c) := h
  cases writes_of_work hwork with
  | graded _ graderReply acked => exact ⟨_, _, _, _, rfl, rfl⟩
  | ungraded _ message acked => exact ⟨_, _, _, _, rfl, rfl⟩

theorem id_of_work (h : task.work cfg env s = (os, .ok c)) : c.id = s.id := by
  cases writes_of_work h <;> rfl

/-- No operation writes a column that the submit request has set. -/
theorem origin_of_work (h : task.work cfg env s = (os, .ok c)) : c.origin = s.origin := by
  cases writes_of_work h <;> rfl

/-- The bodies an operation can send to the LMS for a row. -/
inductive Task.Sends (env : WorkEnv) : Task → PyStr → Prop
  | result (request : HttpRequest) (graderReply : PyStr) :
      Sends env (.put request graderReply) graderReply
  | grade (worker : Worker) (graderReply : PyStr) :
      env.grader = .response 200 graderReply → Sends env (.push worker) graderReply
  | failedPush (worker : Worker) : Sends env (.push worker) failureMessage
  | failed (force : Bool) : Sends env (.retireFailed force) failureMessage
  | old : Sends env .retireOld failureMessage

/-- What an operation emits between its read and its save is about the row it has read. -/
inductive Task.Emits (env : WorkEnv) (s : Submission) : Task → Output → Prop
  | accepted (request : HttpRequest) (graderReply : PyStr) :
      Emits env s (.put request graderReply) (.accepted request s)
  | pushed (worker : Worker) : Emits env s (.push worker) (pushOutput worker env s)
  | delivered {task : Task} {body : PyStr} : task.Sends env body →
      Emits env s task (.delivered (s.deliver env.lms body))

theorem mem_outputs_of_work {o : Output} (h : o ∈ (task.work cfg env s).1) :
    task.Emits env s o := by
  cases task with
  | pull request => cases h
  | put request graderReply =>
      rcases List.mem_pair.1 h with rfl | rfl
      · exact Task.Emits.accepted request graderReply
      · exact Task.Emits.delivered (Task.Sends.result request graderReply)
  | push worker =>
      rcases hgrader : httpPost env.grader with e | ⟨_ | _, graderReply⟩
      · simp only [Task.work, Worker.work, hgrader] at h
        rw [List.mem_singleton.1 h]
        exact Task.Emits.pushed worker
      · simp only [Task.work, Worker.work, hgrader] at h
        rcases List.mem_pair.1 h with rfl | rfl
        · exact Task.Emits.pushed worker
        · exact Task.Emits.delivered (Task.Sends.failedPush worker)
      · simp only [Task.work, Worker.work, hgrader] at h
        rcases List.mem_pair.1 h with rfl | rfl
        · exact Task.Emits.pushed worker
        · exact Task.Emits.delivered (Task.Sends.grade worker graderReply (httpPost_eq_true hgrader))
  | retireFailed force =>
      cases force with
      | true => cases h
      | false =>
          rw [List.mem_singleton.1 h]
          exact Task.Emits.delivered (Task.Sends.failed false)
  | retireOld =>
      rw [List.mem_singleton.1 h]
      exact Task.Emits.delivered Task.Sends.old

theorem emits_of_work {o : Output} {result : Except PyExc Submission}
    (h : task.work cfg env s = (os, result)) (ho : o ∈ os) : task.Emits env s o := by
  have hmem : o ∈ (task.work cfg env s).1 := by rwa [h]
  exact mem_outputs_of_work hmem

/-- A work that delivers does so once and last.  The outcome goes to `lms_ack`, and retires the
row if it is an acknowledgement. -/
theorem work_cases (cfg : Config) (env : WorkEnv) (task : Task) (s : Submission) :
    (∀ d, .delivered d ∉ (task.work cfg env s).1) ∨
      ∃ before d assign, (∀ d', .delivered d' ∉ before) ∧
        task.work cfg env s = (before ++ [.delivered d], d.outcome.map assign) ∧
        (∀ acked, (assign acked).lmsAck = acked) ∧ (assign true).retired = true := by
  cases task with
  | pull request => exact Or.inl (fun d h => by cases h)
  | put request graderReply =>
      exact Or.inr ⟨[.accepted request s], s.deliver env.lms graderReply, _, by simp, putResult_eq,
        fun _ => rfl, rfl⟩
  | push worker =>
      rcases hgrader : httpPost env.grader with e | ⟨_ | _, graderReply⟩
      · left
        simp [Task.work, Worker.work, hgrader]
      · refine Or.inr ⟨[pushOutput worker env s], s.deliver env.lms failureMessage,
          fun acked => s.pushed worker env s.graderReply (s.numFailures + 1) acked,
          by simp [pushOutput], ?_, fun _ => rfl, rfl⟩
        simp only [Task.work, Worker.work, hgrader]
        rfl
      · refine Or.inr ⟨[pushOutput worker env s], s.deliver env.lms graderReply,
          fun acked => s.pushed worker env graderReply s.numFailures acked,
          by simp [pushOutput], ?_, fun _ => rfl, rfl⟩
        simp only [Task.work, Worker.work, hgrader]
        rfl
  | retireFailed force =>
      cases force with
      | true => exact Or.inl (fun d h => by cases h)
      | false => exact Or.inr ⟨[], s.deliverFailure env.lms, _, by simp, rfl, fun _ => rfl, rfl⟩
  | retireOld => exact Or.inr ⟨[], s.deliverFailure env.lms, _, by simp, rfl, fun _ => rfl, rfl⟩

/-- The delivery of a work, with the row that is assigned for each outcome. -/
theorem assign_of_delivered {d : Delivery} {result : Except PyExc Submission}
    (h : task.work cfg env s = (os, result)) (hd : .delivered d ∈ os) :
    ∃ assign, result = d.outcome.map assign ∧
      (∀ acked, (assign acked).lmsAck = acked) ∧ (assign true).retired = true := by
  rcases work_cases cfg env task s with hnone | ⟨before, d', assign, hbefore, heq, hassign⟩
  · rw [h] at hnone
    exact absurd hd (hnone d)
  · rw [h] at heq
    cases heq
    -- the only delivery is the last output
    rcases List.mem_append.1 hd with hd | hd
    · exact absurd hd (hbefore d)
    · cases List.mem_singleton.1 hd
      exact ⟨assign, rfl, hassign⟩

/-- A delivery that ends without an exception leads to a save that records its outcome. -/
theorem lmsAck_of_delivered {d : Delivery} (h : task.work cfg env s = (os, .ok c))
    (hd : .delivered d ∈ os) : c.lmsAck = d.acked := by
  rcases assign_of_delivered h hd with ⟨assign, hres, hack, -⟩
  rcases map_outcome_eq_ok.1 hres.symm with ⟨acked, hout, rfl⟩
  rw [hack acked, Delivery.acked, hout]

/-- The flag `lms_ack` is raised by an acknowledged delivery, or was up before. -/
theorem delivered_of_lmsAck (h : task.work cfg env s = (os, .ok c)) (hack : c.lmsAck = true) :
    s.lmsAck = true ∨ ∃ d, .delivered d ∈ os ∧ d.id = s.id ∧ d.acked = true := by
  cases writes_of_work h with
  -- two operations leave the flag as it was
  | pulled => exact Or.inl hack
  | forced => exact Or.inl hack
  | returned request graderReply acked hout =>
      cases hack
      exact Or.inr ⟨_, by simp, rfl, Delivery.acked_iff.2 hout⟩
  | graded worker graderReply acked _ hout =>
      cases hack
      exact Or.inr ⟨_, by simp, rfl, Delivery.acked_iff.2 hout⟩
  | ungraded worker message acked _ hout =>
      cases hack
      exact Or.inr ⟨_, by simp, rfl, Delivery.acked_iff.2 hout⟩
  | notified acked hout =>
      cases hack
      exact Or.inr ⟨_, by simp, rfl, Delivery.acked_iff.2 hout⟩
  | retiredOld acked hout =>
      cases hack
      exact Or.inr ⟨_, by simp, rfl, Delivery.acked_iff.2 hout⟩

/-- A work that raises an exception has no acknowledged delivery. -/
theorem not_acked_of_raised {d : Delivery} {e : PyExc} (h : task.work cfg env s = (os, .error e))
    (hd : .delivered d ∈ os) : d.acked = false := by
  rcases assign_of_delivered h hd with ⟨assign, hres, -⟩
  rcases hout : d.outcome with err | acked
  · simp [Delivery.acked, hout]
  · -- an outcome without an exception would have been assigned
    simp [hout, Except.map] at hres

/-- An acknowledged delivery retires the row. -/
theorem retired_of_acked {d : Delivery} (h : task.work cfg env s = (os, .ok c))
    (hd : .delivered d ∈ os) (hack : d.acked = true) : c.retired = true := by
  rcases assign_of_delivered h hd with ⟨assign, hres, -, hretired⟩
  rw [Delivery.acked_iff.1 hack] at hres
  cases hres
  exact hretired

/-! ## The end of an operation -/

/-- The reply of a pull, once its instance is saved. -/
def Task.replies (fetch : HttpResult) (c : Submission) : Task → List Output
  | .pull _ => [.pulled c (pullReply fetch c)]
  | _ => []

theorem pulled_of_mem_replies {fetch : HttpResult} {o : Output} (h : o ∈ task.replies fetch c) :
    ∃ response, o = .pulled c response := by
  cases task with
  | pull request => exact ⟨_, by simpa [Task.replies] using h⟩
  | _ => cases h

/-- The save takes place, or a pull is undone with its reply. -/
theorem finish_cases (cfg : Config) (task : Task) (fetch : HttpResult) (now : DateTime)
    (c : Submission) (t : Table) :
    ((∃ request, task = .pull request) ∧ task.finish cfg fetch now c t = (t, [])) ∨
      task.finish cfg fetch now c t = (save now c t, task.replies fetch c) := by
  cases task with
  | pull request =>
      cases hreply : pullReply fetch c with
      | ok response => simp [Task.finish, servePull, Task.replies, hreply]
      | error e =>
          -- an exception of the reply undoes the save under `ATOMIC_REQUESTS`
          by_cases hatomic : cfg.atomicRequests = true <;>
            simp [Task.finish, servePull, Task.replies, hreply, hatomic]
  | _ => exact Or.inr rfl

end Xqueue
