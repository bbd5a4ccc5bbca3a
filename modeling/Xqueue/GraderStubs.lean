import Xqueue.GraderFiles
import Xqueue.PullKey
import Xqueue.PushQueue
import Xqueue.ReachableTable

/-!
# GraderStubs — the clients at both ends

This file embeds the graders and the LMS of `test_framework/integration_framework.py`:

* `popSubmission`, `pushResponse`, `ActiveGrader.round`, `ActiveGrader.poll` : `ActiveGraderStub`;
* `PassiveGrader.doPost` : `GradingRequestHandler`, for a `PassiveGraderStub`;
* `parsePostDict` : how `LoggingRequestHandler` reads a grade;
* `graders_agree` : a submission that is pulled and one that is pushed lead to the same grade.
-/

namespace Xqueue

open Library
open Library.System

/-! ## Decoding -/

/-- A dictionary with the two keys of every message. -/
structure Message where
  xqueueHeader : Json
  xqueueBody : Json

/-- `json.loads(v)` of a decoded value. -/
def jsonLoadsValue : Json → Except PyExc Json
  | .str s => jsonLoads s
  | _ => .error .typeError

/-- `v == 0` -/
def isZero : Json → Bool
  | .int n => n = 0
  | .bool b => !b
  | .float (.finite _ mantissa _) => mantissa = 0
  | _ => false

/-- The submission in the content of a reply: its header is decoded once more, its body is not. -/
def decodeSubmission (content : Json) : Except PyExc Message := do
  let submissionDict ← jsonLoadsValue content
  let header ← subscript (py "xqueue_header") submissionDict
  let xqueueHeader ← jsonLoadsValue header
  let xqueueBody ← subscript (py "xqueue_body") submissionDict
  return ⟨xqueueHeader, xqueueBody⟩

/-! ## The active grader -/

/-- `_pop_submission`, from the response to its request.  The test client raises what the view
raises. -/
def popSubmission : Except PyExc HttpResponse → Except PyExc (Option Message)
  | .error e => .error e
  -- not status code 200
  | .ok .loginRedirect => .ok none
  | .ok (.reply success content) => do
      let responseDict ← jsonLoads (composeReply success content)
      let returnCode ← subscript (py "return_code") responseDict
      if isZero returnCode then
        let submission ← subscript (py "content") responseDict
        return some (← decodeSubmission submission)
      else return none

/-- The request of `_push_response`. -/
def pushRequest (response : Message) : HttpRequest :=
  postOf (Json.dumps response.xqueueHeader) (Json.dumps response.xqueueBody) (Json.encodable_dumps _)
    (Json.encodable_dumps _)

/-- What `_push_response` makes of the response. -/
def pushResponse : Except PyExc HttpResponse → Except PyExc Bool
  | .error e => .error e
  | .ok .loginRedirect => .ok false
  | .ok (.reply success content) => do
      let responseDict ← jsonLoads (composeReply success content)
      let returnCode ← subscript (py "return_code") responseDict
      return isZero returnCode

/-- An `ActiveGraderStub` with its `response_for_submission`. -/
structure ActiveGrader where
  queueName : PyStr
  /-- The name is sent in a URL. -/
  encodable_queueName : PyStr.Encodable queueName
  responseForSubmission : Message → Message

/-- What the outside answers to the two requests of a round. -/
structure PollEnv where
  pull : PullEnv
  put : WorkEnv

namespace ActiveGrader

/-- One round of `poll`. -/
def round (cfg : Config) (env : PollEnv) (grader : ActiveGrader) (t : Table) : Ended Unit :=
  let pulled := getSubmission cfg env.pull (pullRequest grader.queueName) t
  match popSubmission pulled.result with
  | .error e => ⟨pulled.table, pulled.outputs, .error e⟩
  -- nothing to grade: the thread sleeps
  | .ok none => ⟨pulled.table, pulled.outputs, .ok ()⟩
  | .ok (some submission) =>
      let returned := putResult cfg env.put (pushRequest (grader.responseForSubmission submission))
        pulled.table
      ⟨returned.table, pulled.outputs ++ returned.outputs, (pushResponse returned.result).map (fun _ => ())⟩

/-- `poll`, for as many rounds as there are environments; an exception ends the thread. -/
def poll (cfg : Config) (grader : ActiveGrader) : List PollEnv → Table → Ended Unit
  | [], t => ⟨t, [], .ok ()⟩
  | env :: envs, t =>
      let ended := grader.round cfg env t
      match ended.result with
      | .error e => ⟨ended.table, ended.outputs, .error e⟩
      | .ok () =>
          let rest := grader.poll cfg envs ended.table
          ⟨rest.table, ended.outputs ++ rest.outputs, rest.result⟩

/-- The grader passes the header of the submission back, as `SimpleActiveGrader` does. -/
def Echoes (grader : ActiveGrader) : Prop :=
  ∀ submission, (grader.responseForSubmission submission).xqueueHeader = submission.xqueueHeader

end ActiveGrader

/-- `SimpleActiveGrader` -/
def simpleActiveGrader (queueName : PyStr) (h : PyStr.Encodable queueName) (responseDict : Json) :
    ActiveGrader :=
  ⟨queueName, h, fun submission => ⟨submission.xqueueHeader, responseDict⟩⟩

/-! ## The passive grader -/

/-- A `PassiveGraderStub` with its `response_for_submission`. -/
structure PassiveGrader where
  responseForSubmission : Json → Json

/-- `GradingRequestHandler.do_POST`, as the one who calls it sees it. -/
def PassiveGrader.doPost (grader : PassiveGrader) (postData : PyStr) : HttpResult :=
  match Json.loads postData with
  | none => .response 500 []
  | some submission => .response 200 (Json.dumps (grader.responseForSubmission submission))

/-- `SimplePassiveGrader` -/
def simplePassiveGrader (responseDict : Json) : PassiveGrader :=
  ⟨fun _ => responseDict⟩

/-! ## The LMS -/

/-- `parse_qs` of the form that is posted: it leaves out blank values. -/
def LmsPost.postDict (p : LmsPost) : QueryDict :=
  [(py "xqueue_header", p.xqueueHeader), (py "xqueue_body", p.xqueueBody)].filter (fun q => q.2 ≠ [])

/-- `post_dict[name][0]` -/
def firstValue (postDict : QueryDict) (name : PyStr) : Except PyExc PyStr :=
  match postDict.lookup name with
  | some value => .ok value
  | none => .error .keyError

/-- `_parse_post_dict` -/
def parsePostDict (postDict : QueryDict) : Except PyExc Message := do
  let xqueueHeader ← jsonLoads (← firstValue postDict (py "xqueue_header"))
  let xqueueBody ← jsonLoads (← firstValue postDict (py "xqueue_body"))
  return ⟨xqueueHeader, xqueueBody⟩

/-- The LMS reads the message out of every POST of the delivery. -/
def Delivery.Tells (d : Delivery) (response : Message) : Prop :=
  ∀ p ∈ d.posts, parsePostDict p.postDict = .ok response

variable {cfg : Config} {active : ActiveGrader} {passive : PassiveGrader} {s c : Submission} {t u : Table}

/-! ## Round trips -/

/-- The message that a pull hands out. -/
def Submission.message (s : Submission) : Message :=
  ⟨.obj [(py "submission_id", .int s.id), (py "submission_key", .str s.pullkey)], .str s.xqueueBody⟩

theorem decodeSubmission_pullPayload {files : PyStr} (hs : Readable s)
    (hkey : PyStr.Encodable s.pullkey) (hfiles : PyStr.Encodable files) :
    decodeSubmission (.str (pullPayload s files)) = .ok s.message := by
  have hpayload : Json.loads (pullPayload s files) = _ := Json.loads_dumps (plain_pullPayload hs.body hfiles)
  have hheader : Json.loads (extHeader s.id s.pullkey) = _ := 
    Json.loads_dumps (plain_extHeader hs.id hkey)
  have hbodyKey : (py "xqueue_body" == py "xqueue_header") = false := by decide
  simp [decodeSubmission, jsonLoadsValue, jsonLoads, hpayload, hheader, subscript, List.lookup_cons,
    hbodyKey, Submission.message, bind, Except.bind, pure, Except.pure]

/-- A successful reply is decoded, the content of another one is not looked at. -/
theorem popSubmission_reply (success : Bool) {content : Json} (h : Json.Plain content) :
    popSubmission (.ok (.reply success content)) =
      if success then (decodeSubmission content).map some else .ok none := by
  have hloads : Json.loads (composeReply success content) = _ := HttpResponse.loads_body success h
  have hcontent : (py "content" == py "return_code") = false := by decide
  cases success with
  | true =>
      cases hdecode : decodeSubmission content <;>
        simp [popSubmission, jsonLoads, hloads, subscript, List.lookup_cons, hcontent, isZero, hdecode,
          bind, Except.bind, pure, Except.pure, Except.map]
  | false => simp [popSubmission, jsonLoads, hloads, subscript, isZero, bind, Except.bind, pure, Except.pure]

theorem pushResponse_reply (success : Bool) {content : Json} (h : Json.Plain content) :
    pushResponse (.ok (.reply success content)) = .ok success := by
  have hloads : Json.loads (composeReply success content) = _ := HttpResponse.loads_body success h
  cases success <;>
    simp [pushResponse, jsonLoads, hloads, subscript, isZero, bind, Except.bind, pure, Except.pure]

theorem popSubmission_pullPayload {files : PyStr} (hs : Readable s)
    (hkey : PyStr.Encodable s.pullkey) (hfiles : PyStr.Encodable files) :
    popSubmission (.ok (.reply true (.str (pullPayload s files)))) = .ok (some s.message) := by
  have hplain : Json.Plain (.str (pullPayload s files)) := Json.Plain.str (Json.encodable_dumps _)
  rw [popSubmission_reply true hplain]
  simp [decodeSubmission_pullPayload hs hkey hfiles, Except.map]

/-- The response that echoes the header of a pull passes the key check. -/
theorem putResultChecks_pushRequest {response : Message} (hid : c.id ≤ maxId)
    (hkey : PyStr.Encodable c.pullkey) (hne : c.pullkey ≠ []) (hecho : response.xqueueHeader = c.message.xqueueHeader) (hc : c ∈ u) :
    putResultChecks (pushRequest response) u = .ok (c, Json.dumps response.xqueueBody) := by
  have hheader : QueryDict.get? (pushRequest response).post (py "xqueue_header") =
      some (extHeader c.id c.pullkey) := by
    show some (Json.dumps response.xqueueHeader) = _
    rw [hecho]
    rfl
  have hvalid := isValidReply_extHeader (pushRequest response).nesting_pos hid hheader
    (rfl : QueryDict.get? (pushRequest response).post (py "xqueue_body") =
      some (Json.dumps response.xqueueBody)) hkey
  refine putResultChecks_eq_ok.2 ⟨rfl, rfl, hc, _, hvalid, rfl, ?_, rfl⟩
  simp [keyMatches, hne, Json.isStr_iff]

/-- The response is accepted and delivered; it is saved unless the delivery raises. -/
theorem putResult_pushRequest {response : Message} (cfg : Config) (env : WorkEnv)
    (hid : c.id ≤ maxId) (hkey : PyStr.Encodable c.pullkey) (hne : c.pullkey ≠ [])
    (hecho : response.xqueueHeader = c.message.xqueueHeader) (hc : c ∈ u) :
    let body := Json.dumps response.xqueueBody
    let outputs := [.accepted (pushRequest response) c, .delivered (c.deliver env.lms body)]
    (∀ e, (c.deliver env.lms body).outcome = .error e →
        putResult cfg env (pushRequest response) u = ⟨u, outputs, .error e⟩) ∧
      ∀ acked, (c.deliver env.lms body).outcome = .ok acked →
        putResult cfg env (pushRequest response) u =
          ⟨save env.now (c.returned cfg env.now body acked) u, outputs, .ok (.reply true (.str []))⟩ := by
  intro body outputs
  have hchecks := putResultChecks_pushRequest hid hkey hne hecho hc
  constructor
  · intro e hout
    simp only [putResult, hchecks, putResult_eq, Work.finish, body, outputs] at hout ⊢
    simp only [hout, Except.map]
  · intro acked hout
    simp only [putResult, hchecks, putResult_eq, Work.finish, body, outputs] at hout ⊢
    simp only [hout, Except.map]

/-- The LMS reads back what was put into the header and the body. -/
theorem tells_deliver {header grade : Json} {lms : Nat → HttpResult}
    (hheader : jsonLoads s.xqueueHeader = .ok header) (hgrade : Json.Plain grade) :
    (s.deliver lms (Json.dumps grade)).Tells ⟨header, grade⟩ := by
  intro p hp
  rcases mem_posts hp with ⟨-, hpheader, hpbody⟩
  change p.xqueueHeader = s.xqueueHeader at hpheader
  change p.xqueueBody = Json.dumps grade at hpbody
  -- no field is blank, so both are posted
  have hne : s.xqueueHeader ≠ [] := by
    intro hnil
    rw [hnil] at hheader
    cases hheader
  have hne' : Json.dumps grade ≠ [] := by
    intro hnil
    have hloads := Json.loads_dumps hgrade
    rw [hnil] at hloads
    cases hloads
  have hbody : jsonLoads (Json.dumps grade) = .ok grade := by
    simp [jsonLoads, Json.loads_dumps hgrade]
  have hkey : (py "xqueue_body" == py "xqueue_header") = false := by decide
  simp [parsePostDict, LmsPost.postDict, hpheader, hpbody, hne, hne', firstValue, List.lookup_cons, hkey,
    hheader, hbody, bind, Except.bind, pure, Except.pure]

/-- The response to the row, from its decoded payload. -/
def PassiveGrader.grade (grader : PassiveGrader) (s : Submission) : Json :=
  grader.responseForSubmission
    (.obj [(py "xqueue_body", .str s.xqueueBody), (py "xqueue_files", .str s.s3Urls)])

/-- The stub can decode what a worker posts to it. -/
theorem doPost_graderPayload (hs : Readable s) :
    passive.doPost (graderPayload s) = .response 200 (Json.dumps (passive.grade s)) := by
  have hloads : Json.loads (graderPayload s) = _ := Json.loads_dumps (plain_graderPayload hs.body hs.urls)
  simp [PassiveGrader.doPost, PassiveGrader.grade, hloads]

theorem readable_moved {performs : Performs} {u' : Table} {o : List Output} (h : ∀ r ∈ u, Readable r)
    (hm : Moved cfg performs u u' o) : ∀ r ∈ u', Readable r := by
  cases hm with
  | raised => exact h
  | undone => exact h
  | @saved task env s c os fetch now hs _ hwork =>
      intro r hr
      rcases (mem_save_worked hs hwork).1 hr with rfl | ⟨hr, -⟩
      · exact readable_of_work (h _ hs) hwork
      · exact h r hr
  | superseded callback =>
      intro r hr
      rcases mem_invalidate_cases hr with ⟨s, hs, -, rfl⟩ | ⟨hr, -⟩
      · exact (h s hs).retire
      · exact h r hr
  | @inserted request valid callback s3Urls s3Keys now hchecks hcallback hurls hid =>
      intro r hr
      rcases KeyedTable.mem_insert.1 hr with hr | rfl
      · exact h r hr
      · rcases submitChecks_eq_ok.1 hchecks with ⟨-, -, hvalid, -⟩
        exact ⟨hid, HttpRequest.encodable_of_post (isValidRequest_eq_some hvalid).2.1, hurls⟩

theorem readable_of_reachable (h : (atomicSystem cfg).Reachable KeyedTable.empty t) :
    ∀ r ∈ t, Readable r := by
  rcases h with ⟨es, os, hrun⟩
  refine moves_invariant (I := fun _ u => ∀ r ∈ u, Readable r) hrun ?_ ?_
  · exact fun r hr => absurd hr KeyedTable.not_mem_empty
  · exact fun _ _ _ _ _ _ _ hI hm => readable_moved hI hm

theorem getSubmissionChecks_pullRequest {queueName : PyStr} (h : cfg.hasQueue queueName = true) :
    getSubmissionChecks cfg (pullRequest queueName) = .ok queueName := by
  have hget : QueryDict.get? (pullRequest queueName).get (py "queue_name") = some queueName := rfl
  have hauth : (pullRequest queueName).isAuthenticated = true := rfl
  simp [getSubmissionChecks, queueChecks, hauth, hget, h]

/-! ## The same grade either way -/

/-- Pulled or pushed, the submission leads to a delivery with the same grade. -/
structure SameGrade (cfg : Config) (active : ActiveGrader) (passive : PassiveGrader) (t : Table)
    (s : Submission) (header grade : Json) : Prop where
  decoded : jsonLoads s.xqueueHeader = .ok header
  /-- The active grader decodes every reply that hands the row out.  While the row stays as the pull
  has left it, the response is accepted and delivered. -/
  pulled : ∀ (env : PullEnv) (content : Json),
    getSingleUnretiredSubmission cfg env.plan env.queryTime active.queueName t = some s →
    (getSubmission cfg env (pullRequest active.queueName) t).result = .ok (.reply true content) →
      ∃ submission, popSubmission (.ok (.reply true content)) = .ok (some submission) ∧
        ∀ (u : Table) (put : WorkEnv), s.pulled cfg (pullRequest active.queueName) env.pullTime ∈ u →
          let request := pushRequest (active.responseForSubmission submission)
          (putResult cfg put request u).outputs =
            [.accepted request (s.pulled cfg (pullRequest active.queueName) env.pullTime),
              .delivered (s.deliver put.lms (Json.dumps grade))] ∧
          (AttemptsCaught put.lms 5 → pushResponse (putResult cfg put request u).result = .ok true)
  /-- The passive grader decodes what a worker posts, and its response is delivered. -/
  pushed : ∀ (worker : Worker) (env : WorkEnv), env.grader = passive.doPost (graderPayload s) →
    (worker.work env s).1 =
      [pushOutput worker env s, .delivered (s.deliver env.lms (Json.dumps grade))]
  told : Json.Plain grade → ∀ lms, (s.deliver lms (Json.dumps grade)).Tells ⟨header, grade⟩

/-- The two graders answer alike for the same body. -/
def AnswerAlike (active : ActiveGrader) (passive : PassiveGrader) : Prop :=
  ∀ header body files, (active.responseForSubmission ⟨header, .str body⟩).xqueueBody =
    passive.responseForSubmission (.obj [(py "xqueue_body", .str body), (py "xqueue_files", .str files)])

/-- For every submission, graders that answer alike have the LMS read the same message, whether the
submission is pulled by the one or pushed to the other. -/
theorem graders_agree (hmd5 : ∀ seed, cfg.md5 seed ≠ [] ∧ PyStr.Encodable (cfg.md5 seed))
    (hecho : active.Echoes) (halike : AnswerAlike active passive)
    (hqueue : cfg.hasQueue active.queueName = true)
    (ht : (atomicSystem cfg).Reachable KeyedTable.empty t) (hs : s ∈ t) :
    ∃ header, SameGrade cfg active passive t s header (passive.grade s) := by
  have hreadable := readable_of_reachable ht s hs
  have hnamed : NamesCallback s := namesCallback_of_reachable (reachableTable_of_atomic ht) hs
  rcases hnamed with ⟨url, hurl⟩
  rcases lmsCallbackUrl_eq_ok.1 hurl with ⟨members, hloads, -⟩
  have hheader : jsonLoads s.xqueueHeader = .ok (.obj members) := by simp [jsonLoads, hloads]
  refine ⟨.obj members, hheader, ?_, ?_, ?_⟩
  · -- the pull: the reply is decoded, and the response is accepted for the row as it is by then
    intro env content hget hreply
    have hchecks := getSubmissionChecks_pullRequest hqueue
    rw [result_getSubmission hchecks hget] at hreply
    rcases pullReply_eq_success_iff.1 hreply with ⟨files, hserved, rfl⟩
    let c := s.pulled cfg (pullRequest active.queueName) env.pullTime
    have hc : Readable c := hreadable.pulled cfg _ _
    have hkey : c.pullkey ≠ [] ∧ PyStr.Encodable c.pullkey := hmd5 _
    have hfiles : PyStr.Encodable files := encodable_of_filesServed (s := c) hreadable.urls hserved
    refine ⟨c.message, popSubmission_pullPayload hc hkey.2 hfiles, ?_⟩
    intro u put hu request
    rcases putResult_pushRequest cfg put hc.id hkey.2 hkey.1 (hecho c.message) hu with ⟨hraised, hsaved⟩
    have hgrade : (active.responseForSubmission c.message).xqueueBody = passive.grade s :=
      halike _ s.xqueueBody s.s3Urls
    refine ⟨?_, ?_⟩
    · cases hout : (c.deliver put.lms (Json.dumps
          (active.responseForSubmission c.message).xqueueBody)).outcome with
      | error e =>
          rw [hraised e hout, hgrade]
          rfl
      | ok acked =>
          rw [hsaved acked hout, hgrade]
          rfl
    · intro hcaught
      rcases (outcome_ok_iff (s := c) ⟨url, hurl⟩).2 hcaught with ⟨acked, hout⟩
      rw [hsaved acked hout]
      exact pushResponse_reply true (Json.Plain.str (by decide))
  · -- the push
    intro worker env hgrader
    have hpost := congrArg httpPost (hgrader.trans (doPost_graderPayload hreadable))
    simp only [Worker.work, hpost]
    rfl
  · exact fun hgrade lms => tells_deliver hheader hgrade

/-- The response of the graders in the tests. -/
def graderResponse : Json :=
  .obj [(py "submission_data", .str (py "test"))]

/-- An active grader of the pull queue. -/
def testGrader : ActiveGrader :=
  simpleActiveGrader (py "test-pull") (by decide) graderResponse

/-- The row of a job, with graders that always respond the same. -/
theorem graders_agree_simple :
    ∃ s ∈ pendingTable, ∃ header, SameGrade devSettings testGrader (simplePassiveGrader graderResponse)
      pendingTable s header graderResponse := by
  have hne : pendingTable.rows ≠ [] := by decide +kernel
  rcases List.exists_mem_of_ne_nil _ hne with ⟨s, hs⟩
  exact ⟨s, hs, graders_agree (fun seed => ⟨digest_ne_nil seed, encodable_digest seed⟩) (fun _ => rfl)
    (fun _ _ _ => rfl) (by decide) (reachable_tableAfter _ _ _) hs⟩

end Xqueue
