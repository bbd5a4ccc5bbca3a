import Xqueue.Views

/-!
# Consumer — delivery to the LMS and the push worker

This file embeds `submission_queue/consumer.py`:

* `httpPost` : `_http_post`, which turns the end of an HTTP call into a pair;
* `postGradeToLms` : up to five POSTs to the callback of a header;
* `Delivery` : one call of `postGradeToLms` on behalf of a submission;
* `Worker.deliverSubmission` : one round of a push worker, and `Worker.run` : its loop.

The outside answers through functions: `lms k` is how the `k`-th POST to the LMS ends.
`Output` lists what an observer of the database and of the network sees.
-/

namespace Xqueue

open Library

/-- `_http_post`: a pair of a success flag and a message, or the exception that escapes. -/
def httpPost : HttpResult → Except PyExc (Bool × PyStr)
  | .response statusCode text =>
      if statusCode = 200 then .ok (true, text)
      else .ok (false, py "unexpected HTTP status code [" ++ PyStr.ofInt statusCode ++ py "]")
  | .connectionError => .ok (false, py "cannot connect to server")
  | .timeout => .ok (false, py "cannot connect to server")
  | .raised e => .error e

theorem httpPost_eq_true {result : HttpResult} {text : PyStr}
    (h : httpPost result = .ok (true, text)) : result = .response 200 text := by
  cases result with
  | response statusCode body =>
      by_cases hstatus : statusCode = 200
      · subst hstatus
        simpa [httpPost] using h
      · simp [httpPost, hstatus] at h
  | connectionError => simp [httpPost] at h
  | timeout => simp [httpPost] at h
  | raised e => simp [httpPost] at h

/-! ## Delivery to the LMS -/

structure LmsPost where
  url : Json
  xqueueHeader : PyStr
  xqueueBody : PyStr

/-- `json.loads(header)['lms_callback_url']` -/
def lmsCallbackUrl (header : PyStr) : Except PyExc Json :=
  match jsonLoads header with
  | .error e => .error e
  | .ok headerDict => subscript (py "lms_callback_url") headerDict

theorem lmsCallbackUrl_eq_ok {header : PyStr} {url : Json} : lmsCallbackUrl header = .ok url ↔
    ∃ members, Json.loads header = some (.obj members) ∧
      members.lookup (py "lms_callback_url") = some url := by
  cases h : Json.loads header with
  | none => simp [lmsCallbackUrl, jsonLoads, h]
  | some v => simp [lmsCallbackUrl, jsonLoads, h, subscript_eq_ok]

/-- The retry loop with `left` attempts to go: the POSTs made so far and the outcome. -/
def postAttempts (lms : Nat → HttpResult) : (left attempts : Nat) → Nat × Except PyExc Bool
  | 0, attempts => (attempts, .ok false)
  | left + 1, attempts =>
      match httpPost (lms attempts) with
      -- `_http_post` catches two exceptions; any other leaves the loop
      | .error e => (attempts + 1, .error e)
      | .ok (true, _) => (attempts + 1, .ok true)
      | .ok (false, _) => postAttempts lms left (attempts + 1)

/-- `post_grade_to_lms`: the POSTs it makes and the success flag it returns. -/
def postGradeToLms (lms : Nat → HttpResult) (header body : PyStr) :
    List LmsPost × Except PyExc Bool :=
  match lmsCallbackUrl header with
  | .error e => ([], .error e)
  | .ok url =>
      let (attempts, outcome) := postAttempts lms 5 0
      (List.replicate attempts ⟨url, header, body⟩, outcome)

/-- The message of `post_failure_to_lms`. -/
def failureMessage : PyStr :=
  Json.dumps (.obj [(py "correct", .null), (py "score", .int 0),
    (py "msg", .str (py "<div class=\"capa_alert\">" ++ py "Your submission could not be graded. " ++
      py "Please recheck your submission and try again. " ++
      py "If the problem persists, please notify the course staff." ++ py "</div>"))])

theorem le_postAttempts {lms : Nat → HttpResult} {left attempts : Nat} :
    attempts ≤ (postAttempts lms left attempts).1 ∧
      (postAttempts lms left attempts).1 ≤ attempts + left := by
  induction left generalizing attempts with
  | zero => simp [postAttempts]
  | succ left ih =>
      have hih := @ih (attempts + 1)
      simp only [postAttempts]
      split
      · simp
      · simp
      · omega

/-- The loop makes at least one POST. -/
theorem lt_postAttempts {lms : Nat → HttpResult} {left attempts : Nat} :
    attempts < (postAttempts lms (left + 1) attempts).1 := by
  have h := @le_postAttempts lms left (attempts + 1)
  rw [postAttempts]
  split
  · simp
  · simp
  · omega

/-- The loop gives up exactly when every attempt has failed gently. -/
theorem postAttempts_eq_false {lms : Nat → HttpResult} {left attempts : Nat} :
    (postAttempts lms left attempts).2 = .ok false ↔
      ∀ k < left, ∃ message, httpPost (lms (attempts + k)) = .ok (false, message) := by
  induction left generalizing attempts with
  | zero => simp [postAttempts]
  | succ left ih =>
      have hshift : (∀ k < left + 1, ∃ message, httpPost (lms (attempts + k)) = .ok (false, message)) ↔
          (∃ message, httpPost (lms attempts) = .ok (false, message)) ∧
            ∀ k < left, ∃ message, httpPost (lms (attempts + 1 + k)) = .ok (false, message) := by
        -- the first attempt, and the others counted from the next one
        rw [Nat.forall_lt_succ_left]
        simp only [Nat.add_zero, Nat.add_assoc, Nat.add_comm 1]
      rw [hshift, postAttempts]
      rcases hpost : httpPost (lms attempts) with e | ⟨_ | _, text⟩
      · simp
      · simpa using ih
      · simp

/-- Every POST carries the header and the body verbatim and goes to the URL in the header. -/
theorem mem_posts {lms : Nat → HttpResult} {header body : PyStr} {p : LmsPost}
    (h : p ∈ (postGradeToLms lms header body).1) :
    lmsCallbackUrl header = .ok p.url ∧ p.xqueueHeader = header ∧ p.xqueueBody = body := by
  unfold postGradeToLms at h
  cases hurl : lmsCallbackUrl header with
  | error e => simp [hurl] at h
  | ok url =>
      rw [hurl] at h
      rw [List.eq_of_mem_replicate h]
      exact ⟨rfl, rfl, rfl⟩

/-- A header that names a callback gets between one and five POSTs. -/
theorem length_posts {lms : Nat → HttpResult} {header body : PyStr} {url : Json}
    (h : lmsCallbackUrl header = .ok url) :
    0 < (postGradeToLms lms header body).1.length ∧
      (postGradeToLms lms header body).1.length ≤ 5 := by
  have hle := @le_postAttempts lms 5 0
  simp only [postGradeToLms, h, List.length_replicate]
  exact ⟨lt_postAttempts, by omega⟩

theorem posts_ne_nil_of_ok {lms : Nat → HttpResult} {header body : PyStr} {success : Bool}
    (h : (postGradeToLms lms header body).2 = .ok success) :
    (postGradeToLms lms header body).1 ≠ [] := by
  cases hurl : lmsCallbackUrl header with
  | error e => simp [postGradeToLms, hurl] at h
  | ok url => exact List.length_pos_iff.1 (length_posts hurl).1

/-- It returns `False` exactly when the header names a callback and all five POSTs fail. -/
theorem postGradeToLms_eq_false {lms : Nat → HttpResult} {header body : PyStr} :
    (postGradeToLms lms header body).2 = .ok false ↔
      (∃ url, lmsCallbackUrl header = .ok url) ∧
        ∀ k < 5, ∃ message, httpPost (lms k) = .ok (false, message) := by
  have h := @postAttempts_eq_false lms 5 0
  cases hurl : lmsCallbackUrl header with
  | error e => simp [postGradeToLms, hurl]
  | ok url => simpa [postGradeToLms, hurl] using h

/-- One call of `post_grade_to_lms` on behalf of the submission `id`, with the answers it gets. -/
structure Delivery where
  id : Nat
  header : PyStr
  body : PyStr
  answers : Nat → HttpResult

namespace Delivery

def posts (d : Delivery) : List LmsPost :=
  (postGradeToLms d.answers d.header d.body).1

def outcome (d : Delivery) : Except PyExc Bool :=
  (postGradeToLms d.answers d.header d.body).2

/-- The LMS has acknowledged it. -/
def acked (d : Delivery) : Bool :=
  match d.outcome with
  | .ok success => success
  | .error _ => false

theorem acked_iff {d : Delivery} : d.acked = true ↔ d.outcome = .ok true := by
  rcases h : d.outcome with e | _ | _ <;> simp [acked, h]

theorem posts_ne_nil_of_acked {d : Delivery} (h : d.acked = true) : d.posts ≠ [] :=
  posts_ne_nil_of_ok (acked_iff.1 h)

end Delivery

/-- `post_grade_to_lms(submission.xqueue_header, body)` -/
def Submission.deliver (s : Submission) (lms : Nat → HttpResult) (body : PyStr) : Delivery where
  id := s.id
  header := s.xqueueHeader
  body := body
  answers := lms

/-- `post_failure_to_lms(submission.xqueue_header)` -/
def Submission.deliverFailure (s : Submission) (lms : Nat → HttpResult) : Delivery :=
  s.deliver lms failureMessage

/-! ## What an observer sees -/

/-- A POST of a submission to the URL of a push grader, and how it ended. -/
structure GraderPost where
  id : Nat
  url : PyStr
  payload : PyStr
  result : HttpResult

inductive Output where
  /-- A submit request has retired the pending rows under a stored callback URL. -/
  | invalidated (lmsCallbackUrl : PyStr)
  /-- A submit request has inserted its row. -/
  | inserted (request : HttpRequest) (row : Submission)
  /-- A pull has saved the row; the reply, or the exception, follows. -/
  | pulled (row : Submission) (response : Except PyExc HttpResponse)
  /-- A result has passed the key check of a row. -/
  | accepted (request : HttpRequest) (row : Submission)
  | pushed (post : GraderPost)
  | delivered (d : Delivery)

/-- What an operation does with a row between its read and its save: what it emits, and the
instance to save or the exception that escapes. -/
abbrev Work : Type :=
  List Output × Except PyExc Submission

/-- How an operation ends: the table it leaves, what it has emitted and what it returns. -/
structure Ended (α : Type) where
  table : Table
  outputs : List Output
  result : Except PyExc α

/-- Save the instance that the work has changed, unless an exception has escaped. -/
def Work.finish (now : DateTime) (t : Table) : Work → Ended Unit
  | (outputs, .error e) => ⟨t, outputs, .error e⟩
  | (outputs, .ok s) => ⟨save now s t, outputs, .ok ()⟩

/-- Deliver, then assign to the row according to the success flag. -/
def Delivery.andAssign (d : Delivery) (assign : Bool → Submission) : Work :=
  ([.delivered d], d.outcome.map assign)

/-- What the outside answers while an operation works on a row. -/
structure WorkEnv where
  /-- `timezone.now()` at its first call, and at the second call of the push worker. -/
  now : DateTime
  returnTime : DateTime
  grader : HttpResult
  lms : Nat → HttpResult

/-! ## The push worker -/

structure Worker where
  queueName : PyStr
  workerUrl : PyStr
  deriving DecidableEq, Repr

/-- The payload of a push: body and file map, not wrapped further. -/
def graderPayload (s : Submission) : PyStr :=
  Json.dumps (.obj [(py "xqueue_body", .str s.xqueueBody), (py "xqueue_files", .str s.s3Urls)])

/-- `_deliver_submission` after it has found a submission: push it to the grader, then
report the reply, or the failure, to the LMS. -/
def Worker.work (worker : Worker) (env : WorkEnv) (s : Submission) : Work :=
  let s₁ := { s with graderId := worker.workerUrl, pushTime := some env.now }
  let push := Output.pushed ⟨s.id, worker.workerUrl, graderPayload s, env.grader⟩
  match httpPost env.grader with
  -- nothing is saved, so the row stays as available as it was
  | .error e => ([push], .error e)
  | .ok (gradingSuccess, graderReply) =>
      let s₂ := { s₁ with returnTime := some env.returnTime }
      -- one chance at grading: the row is retired whatever comes of it
      let rest :=
        if gradingSuccess then
          let s₃ := { s₂ with graderReply := graderReply }
          (s₃.deliver env.lms graderReply).andAssign
            (fun success => { s₃ with lmsAck := success, retired := true })
        else
          let s₃ := { s₂ with numFailures := s₂.numFailures + 1 }
          (s₃.deliverFailure env.lms).andAssign
            (fun success => { s₃ with lmsAck := success, retired := true })
      (push :: rest.1, rest.2)

/-- What the outside answers to a push. -/
structure PushEnv extends WorkEnv where
  plan : QueryPlan
  /-- `datetime.now` of the time filter. -/
  queryTime : DateTime

/-- `_deliver_submission` -/
def Worker.deliverSubmission (cfg : Config) (env : PushEnv) (worker : Worker) (t : Table) :
    Ended Unit :=
  match getSingleUnpushedSubmission cfg env.plan env.queryTime worker.queueName t with
  | none => ⟨t, [], .ok ()⟩
  | some submission => (worker.work env.toWorkEnv submission).finish env.returnTime t

/-- `run`, for as many rounds as there are environments; an exception leaves its loop. -/
def Worker.run (cfg : Config) (worker : Worker) : List PushEnv → Table → Ended Unit
  | [], t => ⟨t, [], .ok ()⟩
  | env :: envs, t =>
      let ended := worker.deliverSubmission cfg env t
      match ended.result with
      | .error e => ⟨ended.table, ended.outputs, .error e⟩
      | .ok () =>
          let rest := worker.run cfg envs ended.table
          ⟨rest.table, ended.outputs ++ rest.outputs, rest.result⟩

end Xqueue
