import Xqueue.Acknowledgement
import Xqueue.Operations
import Xqueue.Library.Drain

/-!
# PushQueue — a worker and its queue

A push worker takes the oldest submission of its queue, round after round, and is done with it
whatever comes of the grading.

* `WorkEnv.Caught` : no call of the round raises an exception that `_http_post` lets through;
* `work_of_caught` : then the round posts to the grader, reports to the LMS and retires the row;
* `Drained`, `worker_drains_queue` : as many rounds as there are rows empty the queue in order.
-/

namespace Xqueue

open Library
open Library.System

variable {cfg : Config} {env : WorkEnv} {worker : Worker} {s c : Submission} {t : Table}

/-! ## The attempts of a delivery -/

/-- `_http_post` returns a pair for the call. -/
def HttpResult.isCaught : HttpResult → Bool
  | .raised _ => false
  | _ => true

theorem exists_httpPost {result : HttpResult} (h : result.isCaught = true) :
    (∃ text, result = .response 200 text) ∨
      (result.isFailure = true ∧ ∃ message, httpPost result = .ok (false, message)) := by
  cases result with
  | response statusCode text =>
      by_cases hstatus : statusCode = 200
      · exact Or.inl ⟨text, by rw [hstatus]⟩
      · right
        simp [HttpResult.isFailure, httpPost, hstatus]
  | connectionError => exact Or.inr ⟨rfl, _, rfl⟩
  | timeout => exact Or.inr ⟨rfl, _, rfl⟩
  | raised e => cases h

theorem httpPost_of_isFailure {result : HttpResult} (h : result.isFailure = true) :
    ∃ message, httpPost result = .ok (false, message) := by
  cases result with
  | response statusCode text =>
      have hstatus : statusCode ≠ 200 := by simpa [HttpResult.isFailure] using h
      simp [httpPost, hstatus]
  | connectionError => exact ⟨_, rfl⟩
  | timeout => exact ⟨_, rfl⟩
  | raised e => cases h

/-- The calls `answers`, of which at most `left` are made, have been made `n` times, up to the
first success. -/
structure Attempted (answers : Nat → HttpResult) (left n : Nat) (success : Bool) : Prop where
  le : n ≤ left
  failures : ∀ k, k + 1 < n → (answers k).isFailure = true
  success_iff : success = true ↔ ∃ k < n, ∃ text, answers k = .response 200 text
  gave_up : success = false → n = left

/-- No attempt that the loop makes raises an exception. -/
def AttemptsCaught (answers : Nat → HttpResult) (left : Nat) : Prop :=
  ∀ k < left, (∀ j < k, (answers j).isFailure = true) → (answers k).isCaught = true

instance (answers : Nat → HttpResult) (left : Nat) : Decidable (AttemptsCaught answers left) :=
  inferInstanceAs (Decidable (∀ k < left, (∀ j < k, (answers j).isFailure = true) →
    (answers k).isCaught = true))

theorem not_isFailure_of_ok {result : HttpResult} {text : PyStr} (h : result = .response 200 text) :
    result.isFailure = false := by
  simp [h, HttpResult.isFailure]

/-- One failure more, before the others. -/
theorem Attempted.cons {answers : Nat → HttpResult} {left n : Nat} {success : Bool}
    (hfailure : (answers 0).isFailure = true)
    (h : Attempted (fun k => answers (k + 1)) left n success) :
    Attempted answers (left + 1) (n + 1) success where
  le := Nat.succ_le_succ h.le
  failures := by
    intro k hk
    cases k with
    | zero => exact hfailure
    | succ k => exact h.failures k (Nat.lt_of_succ_lt_succ hk)
  success_iff := by
    rw [h.success_iff]
    constructor
    · rintro ⟨k, hk, htext⟩
      exact ⟨k + 1, Nat.succ_lt_succ hk, htext⟩
    · rintro ⟨k, hk, text, htext⟩
      cases k with
      | zero =>
          rw [not_isFailure_of_ok htext] at hfailure
          cases hfailure
      | succ k => exact ⟨k, Nat.lt_of_succ_lt_succ hk, text, htext⟩
  gave_up := fun hno => congrArg Nat.succ (h.gave_up hno)

theorem attempted_postAttempts {lms : Nat → HttpResult} {left attempts : Nat}
    (h : AttemptsCaught (fun k => lms (attempts + k)) left) :
    ∃ n success, postAttempts lms left attempts = (attempts + n, .ok success) ∧
      Attempted (fun k => lms (attempts + k)) left n success := by
  induction left generalizing attempts with
  | zero => exact ⟨0, false, rfl, ⟨Nat.le_refl 0, by simp, by simp, fun _ => rfl⟩⟩
  | succ left ih =>
      have hfirst : (lms attempts).isCaught = true := by
        simpa using h 0 (Nat.succ_pos left) (by simp)
      have hshift : (fun k => lms (attempts + 1 + k)) = fun k => lms (attempts + (k + 1)) := by
        funext k
        rw [Nat.add_assoc, Nat.add_comm 1]
      rw [postAttempts]
      rcases exists_httpPost hfirst with ⟨text, hres⟩ | ⟨hfailure, message, hpost⟩
      · -- the first success ends the loop
        refine ⟨1, true, by simp [hres, httpPost], ⟨by omega, by omega, ?_, by simp⟩⟩
        simp only [true_iff]
        exact ⟨0, Nat.one_pos, text, by simpa using hres⟩
      · have hrest : AttemptsCaught (fun k => lms (attempts + 1 + k)) left := by
          rw [hshift]
          intro k hk hbefore
          refine h (k + 1) (Nat.succ_lt_succ hk) ?_
          intro j hj
          cases j with
          | zero => exact hfailure
          | succ j => exact hbefore j (Nat.lt_of_succ_lt_succ hj)
        rcases ih hrest with ⟨n, success, heq, hattempted⟩
        rw [hshift] at hattempted
        refine ⟨n + 1, success, ?_, hattempted.cons hfailure⟩
        rw [hpost]
        simp only [heq, Nat.add_assoc, Nat.add_comm 1]

/-- A loop that comes to an outcome has met no exception. -/
theorem attemptsCaught_of_postAttempts {lms : Nat → HttpResult} {left attempts : Nat} {success : Bool}
    (h : (postAttempts lms left attempts).2 = .ok success) :
    AttemptsCaught (fun k => lms (attempts + k)) left := by
  induction left generalizing attempts with
  | zero =>
      intro k hk
      exact absurd hk (Nat.not_lt_zero k)
  | succ left ih =>
      rw [postAttempts] at h
      intro k hk hbefore
      cases k with
      | zero =>
          cases hfirst : lms attempts with
          | raised e => simp [hfirst, httpPost] at h
          | _ => simp [hfirst, HttpResult.isCaught]
      | succ k =>
          -- the first attempt has failed gently, so the loop goes on
          rcases httpPost_of_isFailure (hbefore 0 (Nat.succ_pos k)) with ⟨message, hpost⟩
          simp only [Nat.add_zero] at hpost
          rw [hpost] at h
          have hshift : ∀ j, attempts + 1 + j = attempts + (j + 1) := fun j => by omega
          have hcaught := ih h k (Nat.lt_of_succ_lt_succ hk)
          simp only [hshift] at hcaught
          exact hcaught fun j hj => hbefore (j + 1) (Nat.succ_lt_succ hj)

/-- What is reported of a delivery: between one and five attempts up to the first success, all
with the header and the body of the delivery, and whether one has succeeded. -/
structure Delivery.Reported (d : Delivery) : Prop where
  pos : 0 < d.posts.length
  attempted : Attempted d.answers 5 d.posts.length d.acked
  content : ∀ p ∈ d.posts, lmsCallbackUrl d.header = .ok p.url ∧ p.xqueueHeader = d.header ∧
    p.xqueueBody = d.body

theorem reported_deliver {lms : Nat → HttpResult} {body : PyStr} (hnamed : NamesCallback s)
    (hcaught : AttemptsCaught lms 5) :
    (s.deliver lms body).outcome = .ok (s.deliver lms body).acked ∧ (s.deliver lms body).Reported := by
  rcases hnamed with ⟨url, hurl⟩
  rcases @attempted_postAttempts lms 5 0 (by simpa using hcaught) with
    ⟨n, success, heq, hattempted⟩
  simp only [Nat.zero_add] at heq hattempted
  have hpost : postGradeToLms lms s.xqueueHeader body =
      (List.replicate n ⟨url, s.xqueueHeader, body⟩, .ok success) := by
    simp [postGradeToLms, hurl, heq]
  have hposts : (s.deliver lms body).posts.length = n := by
    simp [Delivery.posts, Submission.deliver, hpost]
  have hacked : (s.deliver lms body).acked = success := by
    simp [Delivery.acked, Delivery.outcome, Submission.deliver, hpost]
  refine ⟨?_, (length_posts hurl).1, ?_, fun p hp => mem_posts hp⟩
  · rw [hacked]
    simp [Delivery.outcome, Submission.deliver, hpost]
  · rw [hposts, hacked]
    exact hattempted

/-- The notice for a row that names its callback ends without an exception exactly if no attempt
raises one. -/
theorem outcome_ok_iff {lms : Nat → HttpResult} {body : PyStr} (hnamed : NamesCallback s) :
    (∃ acked, (s.deliver lms body).outcome = .ok acked) ↔ AttemptsCaught lms 5 := by
  constructor
  · rintro ⟨acked, hout⟩
    rcases hnamed with ⟨url, hurl⟩
    have hloop : (postAttempts lms 5 0).2 = .ok acked := by
      simpa [Delivery.outcome, Submission.deliver, postGradeToLms, hurl] using hout
    simpa using attemptsCaught_of_postAttempts hloop
  · intro hcaught
    exact ⟨_, (reported_deliver hnamed hcaught).1⟩

/-! ## One round -/

/-- No call that the round makes raises an exception that `_http_post` lets through. -/
def WorkEnv.Caught (env : WorkEnv) : Prop :=
  env.grader.isCaught = true ∧ AttemptsCaught env.lms 5

/-- The grader has answered with a grade. -/
def WorkEnv.graded (env : WorkEnv) : Bool :=
  env.grader.isCaught && !env.grader.isFailure

/-- What the LMS is told: the reply of the grader, or that it has failed. -/
def WorkEnv.report (env : WorkEnv) : PyStr :=
  match httpPost env.grader with
  | .ok (true, graderReply) => graderReply
  | _ => failureMessage

/-- The delivery of a round. -/
def reportDelivery (env : WorkEnv) (s : Submission) : Delivery :=
  s.deliver env.lms env.report

/-- The row `c` is what one round leaves of the row `s`. -/
structure PushedOnce (worker : Worker) (env : WorkEnv) (s c : Submission) : Prop where
  id : c.id = s.id
  origin : c.origin = s.origin
  arrivalTime : c.arrivalTime = s.arrivalTime
  graderId : c.graderId = worker.workerUrl
  pushTime : c.pushTime = some env.now
  retired : c.retired = true
  numFailures : c.numFailures = if env.graded then s.numFailures else s.numFailures + 1
  lmsAck : c.lmsAck = (reportDelivery env s).acked

/-- A round posts to the grader, then to the LMS, and has the row to save. -/
theorem work_of_caught (worker : Worker) (hcaught : env.Caught) (hnamed : NamesCallback s) :
    ∃ c, worker.work env s = ([pushOutput worker env s, .delivered (reportDelivery env s)], .ok c) ∧
      PushedOnce worker env s c ∧ (reportDelivery env s).Reported := by
  have hdelivery : (reportDelivery env s).outcome = .ok (reportDelivery env s).acked ∧
      (reportDelivery env s).Reported := reported_deliver hnamed hcaught.2
  rcases exists_httpPost hcaught.1 with ⟨text, hgrader⟩ | ⟨hfailure, message, hpost⟩
  · have hpost : httpPost env.grader = .ok (true, text) := by simp [hgrader, httpPost]
    have hreport : reportDelivery env s = s.deliver env.lms text := by
      simp [reportDelivery, WorkEnv.report, hpost]
    have hgraded : env.graded = true := by
      simp [WorkEnv.graded, hgrader, HttpResult.isCaught, HttpResult.isFailure]
    refine ⟨s.pushed worker env text s.numFailures (reportDelivery env s).acked, ?_, ?_, hdelivery.2⟩
    · have houtcome := congrArg (Except.map (fun acked => s.pushed worker env text s.numFailures acked))
        hdelivery.1
      rw [hreport] at houtcome ⊢
      simp only [Worker.work, hpost]
      exact Prod.ext rfl houtcome
    · exact ⟨rfl, rfl, rfl, rfl, rfl, rfl, by simp [Submission.pushed, hgraded], rfl⟩
  · have hreport : reportDelivery env s = s.deliver env.lms failureMessage := by
      simp [reportDelivery, WorkEnv.report, hpost]
    have hgraded : env.graded = false := by simp [WorkEnv.graded, hfailure]
    refine ⟨s.pushed worker env s.graderReply (s.numFailures + 1) (reportDelivery env s).acked, ?_, ?_,
      hdelivery.2⟩
    · have houtcome := congrArg
        (Except.map (fun acked => s.pushed worker env s.graderReply (s.numFailures + 1) acked)) hdelivery.1
      rw [hreport] at houtcome ⊢
      simp only [Worker.work, hpost]
      exact Prod.ext rfl houtcome
    · exact ⟨rfl, rfl, rfl, rfl, rfl, rfl, by simp [Submission.pushed, hgraded], rfl⟩

/-! ## All rounds -/

/-- The row waits in the queue. -/
def isWaiting (queueName : PyStr) (s : Submission) : Bool :=
  s.queueName == queueName && !s.retired

def waiting (queueName : PyStr) (t : Table) : List Submission :=
  t.rows.filter (isWaiting queueName)

theorem mem_waiting {queueName : PyStr} : s ∈ waiting queueName t ↔ s ∈ t ∧ isWaiting queueName s = true :=
  List.mem_filter

/-- A row that waits and was never pushed is available at any time. -/
theorem isAvailable_eq_isWaiting {now : DateTime} {queueName : PyStr} (h : s.pushTime = none) :
    isAvailable cfg now .pushTime queueName s = isWaiting queueName s := by
  simp [isAvailable, isWaiting, timeFilter, Submission.time, h]

/-- What rounds on the table `t` leave, if they have taken the rows `served`, each with the answers
that its round got. -/
structure Served (worker : Worker) (t : Table) (served : List (Submission × PushEnv))
    (ended : Ended Unit) : Prop where
  result : ended.result = .ok ()
  drains : Drains Submission.arrivalTime (waiting worker.queueName t) (served.map Prod.fst)
    (waiting worker.queueName ended.table)
  outputs : ended.outputs = served.flatMap (fun p =>
    [pushOutput worker p.2.toWorkEnv p.1, .delivered (reportDelivery p.2.toWorkEnv p.1)])
  saved : ∀ p ∈ served, ∃ c ∈ ended.table, PushedOnce worker p.2.toWorkEnv p.1 c
  reported : ∀ p ∈ served, (reportDelivery p.2.toWorkEnv p.1).Reported
  /-- The rows that do not wait stay as they are, and there are no new rows. -/
  kept : ∀ r ∈ t, isWaiting worker.queueName r = false → r ∈ ended.table
  known : ∀ c ∈ ended.table, c ∈ t ∨ ∃ p ∈ served, PushedOnce worker p.2.toWorkEnv p.1 c

theorem isWaiting_of_isAvailable {now : DateTime} {timeField : TimeField} {queueName : PyStr}
    (h : isAvailable cfg now timeField queueName s = true) : isWaiting queueName s = true := by
  rcases isAvailable_iff.1 h with ⟨-, hqueue, hretired⟩
  simp [isWaiting, hqueue, hretired]

/-- A round on an empty queue makes no call. -/
theorem deliverSubmission_of_waiting_eq_nil {env : PushEnv} (h : waiting worker.queueName t = []) :
    worker.deliverSubmission cfg env t = ⟨t, [], .ok ()⟩ := by
  have hnone : getSingleUnpushedSubmission cfg env.plan env.queryTime worker.queueName t = none := by
    refine getSingleSubmission_eq_none.2 ?_
    intro r hr
    by_contra hav
    have hr' : r ∈ waiting worker.queueName t :=
      mem_waiting.2 ⟨hr, isWaiting_of_isAvailable (by simpa using hav)⟩
    rw [h] at hr'
    cases hr'
  simp [Worker.deliverSubmission, hnone]

/-- What one round does: it takes the row of the queue that has arrived first. -/
theorem deliverSubmission_of_waiting (cfg : Config) {env : PushEnv} (hcaught : env.Caught)
    (hnamed : ∀ r ∈ t, NamesCallback r)
    (hnew : ∀ r ∈ waiting worker.queueName t, r.pushTime = none)
    (hne : waiting worker.queueName t ≠ []) :
    ∃ s c, (∀ r ∈ waiting worker.queueName t, s.arrivalTime ≤ r.arrivalTime) ∧
      worker.deliverSubmission cfg env t = ⟨save env.returnTime c t,
        [pushOutput worker env.toWorkEnv s, .delivered (reportDelivery env.toWorkEnv s)], .ok ()⟩ ∧
      PushedOnce worker env.toWorkEnv s c ∧ (reportDelivery env.toWorkEnv s).Reported ∧ s ∈ t ∧
      (waiting worker.queueName t).Perm (s :: waiting worker.queueName (save env.returnTime c t)) := by
  have havailable : ∀ r ∈ waiting worker.queueName t,
      isAvailable cfg env.queryTime .pushTime worker.queueName r = true := by
    intro r hr
    rw [isAvailable_eq_isWaiting (hnew r hr)]
    exact (mem_waiting.1 hr).2
  cases hget : getSingleUnpushedSubmission cfg env.plan env.queryTime worker.queueName t with
  | none =>
      -- a row that waits would be found
      rcases List.exists_mem_of_ne_nil _ hne with ⟨r, hr⟩
      have hno := getSingleSubmission_eq_none.1 hget r (mem_waiting.1 hr).1
      rw [havailable r hr] at hno
      cases hno
  | some s =>
      have hs := mem_of_getSingleSubmission hget
      rcases work_of_caught worker hcaught (hnamed s hs) with ⟨c, hwork, hpushed, hreported⟩
      refine ⟨s, c, ?_, ?_, hpushed, hreported, hs, ?_⟩
      · intro r hr
        exact getSingleSubmission_le hget (mem_waiting.1 hr).1 (havailable r hr)
      · simp only [Worker.deliverSubmission, hget, hwork, Work.finish]
      · have hwaiting := isWaiting_of_isAvailable (isAvailable_of_getSingleSubmission hget)
        have hretired : isWaiting worker.queueName c = false := by simp [isWaiting, hpushed.retired]
        exact filter_save_perm hs hpushed.id hwaiting hretired fun _ _ _ => rfl

/-- A round, and the rounds from the table that it leaves. -/
theorem Served.cons {c : Submission} {env : PushEnv} {served : List (Submission × PushEnv)}
    {ended : Ended Unit} (hs : s ∈ t) (hpushed : PushedOnce worker env.toWorkEnv s c)
    (hreported : (reportDelivery env.toWorkEnv s).Reported)
    (hle : ∀ r ∈ waiting worker.queueName t, s.arrivalTime ≤ r.arrivalTime)
    (hperm : (waiting worker.queueName t).Perm (s :: waiting worker.queueName (save env.returnTime c t)))
    (h : Served worker (save env.returnTime c t) served ended) :
    Served worker t ((s, env) :: served) ⟨ended.table,
      [pushOutput worker env.toWorkEnv s, .delivered (reportDelivery env.toWorkEnv s)] ++ ended.outputs,
      ended.result⟩ := by
  have hsaved : ∀ r, r ∈ save env.returnTime c t ↔ r = c ∨ (r ∈ t ∧ r.id ≠ s.id) :=
    fun r => mem_save_of_mem hs hpushed.id
  have hwaiting : s ∈ waiting worker.queueName t := hperm.mem_iff.2 (by simp)
  have hdone : isWaiting worker.queueName c = false := by simp [isWaiting, hpushed.retired]
  refine ⟨h.result, Drains.cons hle hperm h.drains, ?_, ?_, ?_, ?_, ?_⟩
  · rw [h.outputs, List.flatMap_cons]
  · intro p hp
    rcases List.mem_cons.1 hp with rfl | hp
    · exact ⟨c, h.kept c ((hsaved c).2 (Or.inl rfl)) hdone, hpushed⟩
    · exact h.saved p hp
  · intro p hp
    rcases List.mem_cons.1 hp with rfl | hp
    · exact hreported
    · exact h.reported p hp
  · intro r hr hno
    have hid : r.id ≠ s.id := by
      intro heq
      rw [KeyedTable.eq_of_key_eq hr hs heq, (mem_waiting.1 hwaiting).2] at hno
      cases hno
    exact h.kept r ((hsaved r).2 (Or.inr ⟨hr, hid⟩)) hno
  · intro r hr
    rcases h.known r hr with hr | ⟨p, hp, hpushed'⟩
    · rcases (hsaved r).1 hr with rfl | ⟨hr, -⟩
      · exact Or.inr ⟨_, List.mem_cons_self, hpushed⟩
      · exact Or.inl hr
    · exact Or.inr ⟨p, List.mem_cons_of_mem _ hp, hpushed'⟩

/-- Every round, of no more than there are rows in the queue, serves one of them. -/
theorem served_run {envs : List PushEnv} (hcaught : ∀ env ∈ envs, env.Caught) :
    ∀ {t : Table}, (∀ r ∈ t, NamesCallback r) →
      (∀ r ∈ waiting worker.queueName t, r.pushTime = none) →
      envs.length ≤ (waiting worker.queueName t).length →
        ∃ served, served.map Prod.snd = envs ∧ Served worker t served (worker.run cfg envs t) := by
  induction envs with
  | nil =>
      intro t _ _ _
      exact ⟨[], rfl, rfl, Drains.nil _, rfl, by simp, by simp, fun r hr _ => hr, fun c hc => Or.inl hc⟩
  | cons env envs ih =>
      intro t hnamed hnew hlen
      have hne : waiting worker.queueName t ≠ [] := by
        intro hempty
        rw [hempty] at hlen
        exact absurd hlen (by simp)
      rcases deliverSubmission_of_waiting cfg (hcaught env (by simp)) hnamed hnew hne with
        ⟨s, c, hle, hround, hpushed, hreported, hs, hperm⟩
      -- the rounds that follow
      have hnamed' : ∀ r ∈ save env.returnTime c t, NamesCallback r := by
        intro r hr
        rcases (mem_save_of_mem hs hpushed.id).1 hr with rfl | ⟨hr, -⟩
        · have hheader : r.xqueueHeader = s.xqueueHeader := congrArg Origin.xqueueHeader hpushed.origin
          rcases hnamed s hs with ⟨url, hurl⟩
          exact ⟨url, hheader ▸ hurl⟩
        · exact hnamed r hr
      have hnew' : ∀ r ∈ waiting worker.queueName (save env.returnTime c t), r.pushTime = none :=
        fun r hr => hnew r (hperm.mem_iff.2 (List.mem_cons_of_mem s hr))
      have hlen' : envs.length ≤ (waiting worker.queueName (save env.returnTime c t)).length := by
        have := hperm.length_eq
        simp only [List.length_cons] at this hlen
        omega
      rcases ih (fun env' h => hcaught env' (by simp [h])) hnamed' hnew' hlen' with
        ⟨served, hmap, hserved⟩
      have hrun : worker.run cfg (env :: envs) t = ⟨(worker.run cfg envs (save env.returnTime c t)).table,
          [pushOutput worker env.toWorkEnv s, .delivered (reportDelivery env.toWorkEnv s)] ++
            (worker.run cfg envs (save env.returnTime c t)).outputs,
          (worker.run cfg envs (save env.returnTime c t)).result⟩ := by
        rw [Worker.run, hround]
      refine ⟨(s, env) :: served, by simp [hmap], ?_⟩
      rw [hrun]
      exact Served.cons hs hpushed hreported hle hperm hserved

/-- The output is a POST of the row to the URL of a push grader. -/
def isPushOf (id : Nat) : Output → Bool
  | .pushed post => post.id == id
  | _ => false

theorem countP_pushes (served : List (Submission × PushEnv)) (id : Nat) :
    (served.flatMap (fun p => [pushOutput worker p.2.toWorkEnv p.1,
      .delivered (reportDelivery p.2.toWorkEnv p.1)])).countP (isPushOf id) =
      ((served.map Prod.fst).map Submission.id).count id := by
  induction served with
  | nil => rfl
  | cons p served ih =>
      rw [List.flatMap_cons, List.countP_append, ih, List.map_cons, List.map_cons, List.count_cons,
        Nat.add_comm]
      simp [isPushOf, pushOutput, List.countP_cons]

/-- As many rounds as there are rows in the queue, none of which was pushed before, serve each row
once, in the order of their arrival, and leave the queue empty. -/
theorem worker_drains_queue (cfg : Config) (worker : Worker) (envs : List PushEnv) {t : Table}
    (ht : (atomicSystem cfg).Reachable KeyedTable.empty t)
    (hnew : ∀ r ∈ waiting worker.queueName t, r.pushTime = none)
    (hlen : envs.length = (waiting worker.queueName t).length) (hcaught : ∀ env ∈ envs, env.Caught) :
    ∃ served, served.map Prod.snd = envs ∧ Served worker t served (worker.run cfg envs t) ∧
      (waiting worker.queueName t).Perm (served.map Prod.fst) ∧
      (served.map Prod.fst).Pairwise (fun r s => r.arrivalTime ≤ s.arrivalTime) ∧
      (∀ r ∈ waiting worker.queueName t,
        (worker.run cfg envs t).outputs.countP (isPushOf r.id) = 1) ∧
      ∀ env, worker.deliverSubmission cfg env (worker.run cfg envs t).table =
        ⟨(worker.run cfg envs t).table, [], .ok ()⟩ := by
  rcases ht with ⟨es, os, hrun⟩
  have hnamed : ∀ r ∈ t, NamesCallback r := (recorded_of_run hrun).named
  rcases served_run hcaught hnamed hnew (Nat.le_of_eq hlen) with ⟨served, hmap, hserved⟩
  have hcount : (served.map Prod.fst).length = (waiting worker.queueName t).length := by
    rw [List.length_map, ← hlen, ← hmap, List.length_map]
  have hempty := hserved.drains.rest_eq_nil hcount
  have hperm : (waiting worker.queueName t).Perm (served.map Prod.fst) := by
    simpa [hempty] using hserved.drains.perm
  refine ⟨served, hmap, hserved, hperm, hserved.drains.pairwise_le, ?_, ?_⟩
  · intro r hr
    have hids : ((waiting worker.queueName t).map Submission.id).Nodup :=
      t.nodup.sublist (List.filter_sublist.map _)
    rw [hserved.outputs, countP_pushes]
    exact List.count_eq_one_of_mem ((hperm.map Submission.id).nodup_iff.1 hids)
      ((hperm.map Submission.id).mem_iff.1 (List.mem_map_of_mem hr))
  · exact fun env => deliverSubmission_of_waiting_eq_nil hempty

/-- The worker of the queue. -/
def pushWorker : Worker :=
  ⟨py "test-pull", py "http://127.0.0.1:12348"⟩

/-- A round at a minute, and what the grader and the LMS answer. -/
def roundAt (minute : Fin 60) (grader : HttpResult) (lms : Nat → HttpResult) : PushEnv :=
  ⟨⟨clockAt minute, clockAt minute, grader, lms⟩, .insertion, clockAt minute⟩

/-- The first row is graded and acknowledged at the third attempt; the grader fails for the second
one, and the LMS as well. -/
def twoRounds : List PushEnv :=
  [roundAt 2 (.response 200 (py "graded")) (fun k => if k < 2 then .timeout else .response 200 []),
    roundAt 3 .timeout (fun _ => .response 500 [])]

theorem caught_twoRounds : ∀ env ∈ twoRounds, env.Caught := by
  intro env henv
  rcases List.mem_pair.1 henv with rfl | rfl
  · refine ⟨rfl, ?_⟩
    intro k _ _
    show HttpResult.isCaught (if k < 2 then .timeout else .response 200 []) = true
    split
    · rfl
    · rfl
  · exact ⟨rfl, fun _ _ _ => rfl⟩

/-- Two rows, and two rounds. -/
theorem worker_drains_twoJobs :
    ∃ served, served.map Prod.snd = twoRounds ∧
      Served pushWorker twoJobs served (pushWorker.run pushSettings twoRounds twoJobs) ∧
      (pushWorker.run pushSettings twoRounds twoJobs).table.rows.map
        (fun r => (r.retired, r.numFailures, r.lmsAck)) = [(true, 0, true), (true, 1, false)] := by
  rcases worker_drains_queue pushSettings pushWorker twoRounds (reachable_tableAfter _ _ _)
    (by decide +kernel : ∀ r ∈ waiting (py "test-pull") twoJobs, r.pushTime = none)
    (by decide +kernel) caught_twoRounds with ⟨served, hmap, hserved, -⟩
  exact ⟨served, hmap, hserved, by decide +kernel⟩

end Xqueue
