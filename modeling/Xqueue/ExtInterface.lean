import Xqueue.LmsInterface

/-!
# ExtInterface — the pull interface for external graders

This file embeds `submission_queue/ext_interface.py`:

* `getQueuelen` : the number of submissions a grader could pull;
* `getSubmission` : pull the oldest available submission, under a fresh key;
* `isValidReply` : `_is_valid_reply`, with the exceptions of `int()` outside its `try`, and the
  recursion limit that no `except` is for;
* `putResult` : check the key, deliver the result to the LMS and record the outcome.

Each view is cut where it touches the table: `Submission.pull` and `Submission.putResult` are
what happens to the instance between the read and the save.
-/

namespace Xqueue

open Library

/-- `request.GET['queue_name']` of a logged-in request, if it names a queue. -/
def queueChecks (cfg : Config) (missing : PyStr) (unknown : PyStr → PyStr) (request : HttpRequest) :
    Except HttpResponse PyStr :=
  if !request.isAuthenticated then .error .loginRedirect
  else
    match QueryDict.get? request.get (py "queue_name") with
    | none => .error (.failure missing)
    | some queueName =>
        if cfg.hasQueue queueName then .ok queueName else .error (.failure (unknown queueName))

/-! ## get_queuelen -/

/-- `', '.join(names)` -/
def joinNames : List PyStr → PyStr
  | [] => []
  | [name] => name
  | name :: names => name ++ py ", " ++ joinNames names

/-- `get_queuelen` -/
def getQueuelen (cfg : Config) (now : DateTime) (request : HttpRequest) (t : Table) : HttpResponse :=
  match queueChecks cfg (py "'get_queuelen' must provide parameter 'queue_name'")
      (fun _ => py "Valid queue names are: " ++ joinNames (cfg.xqueues.map Prod.fst)) request with
  | .error response => response
  | .ok queueName => .reply true (.int (getQueueLength cfg now queueName t))

/-! ## get_submission -/

def getSubmissionChecks (cfg : Config) (request : HttpRequest) : Except HttpResponse PyStr :=
  queueChecks cfg (py "'get_submission' must provide parameter 'queue_name'")
    (fun queueName => py "Queue '" ++ queueName ++ py "' not found") request

/-- The pull event on the instance read: who pulls, when, and under which key. -/
def Submission.pull (cfg : Config) (request : HttpRequest) (pullTime : DateTime) (s : Submission) :
    Except PyExc Submission :=
  match makeHashkey cfg (pullTime.str ++ PyStr.ofNat s.id) with
  | .error e => .error e
  | .ok pullkey =>
      .ok { s with
        graderId := getRequestIp request, pullTime := some pullTime, pullkey := pullkey }

/-- The header a grader has to send back. -/
def extHeader (submissionId : Nat) (pullkey : PyStr) : PyStr :=
  Json.dumps (.obj [(py "submission_id", .int submissionId), (py "submission_key", .str pullkey)])

def pullPayload (s : Submission) (xqueueFiles : PyStr) : PyStr :=
  Json.dumps (.obj [(py "xqueue_header", .str (extHeader s.id s.pullkey)),
    (py "xqueue_body", .str s.xqueueBody), (py "xqueue_files", .str xqueueFiles)])

/-- `json.dumps(json.loads(r.text)["files"])` -/
def externalFiles (text : PyStr) : Except PyExc PyStr :=
  match jsonLoads text with
  | .error e => .error e
  | .ok data =>
      match subscript (py "files") data with
      | .error e => .error e
      | .ok files => .ok (Json.dumps files)

/-- The reply to a pull that has been saved.  The file map is fetched when the stored text
mentions `URL_FOR_EXTERNAL_DICTS`; a failed fetch is an error reply. -/
def pullReply (fetch : HttpResult) (s : Submission) : Except PyExc HttpResponse :=
  let fetchError := HttpResponse.failure
    (py "Error fetching submission for " ++ s.queueName ++ py ". Please try again.")
  let marker := py "URL_FOR_EXTERNAL_DICTS"
  match (if s.s3Urls = [] then .ok (.obj []) else jsonLoads s.s3Urls) with
  | .error e => .error e
  | .ok urls =>
      if marker <:+: s.s3Urls then
        match subscript marker urls with
        | .error e => .error e
        | .ok _url =>
            match fetch with
            -- an error reply, although the pull has been saved
            | .connectionError => .ok fetchError
            | .timeout => .ok fetchError
            | .raised e => .error e
            | .response statusCode text =>
                if statusCode ≠ 200 then .ok fetchError
                else
                  match externalFiles text with
                  | .error e => .error e
                  | .ok xqueueFiles => .ok (.reply true (.str (pullPayload s xqueueFiles)))
      else .ok (.reply true (.str (pullPayload s s.s3Urls)))

/-- What the outside answers to a pull. -/
structure PullEnv where
  plan : QueryPlan
  /-- `datetime.now` of the time filter, and `timezone.now()` of the pull. -/
  queryTime : DateTime
  pullTime : DateTime
  fetch : HttpResult

/-- The end of a pull once the instance `s` has been saved: an exception of the reply undoes
the save if every request is one transaction. -/
def servePull (cfg : Config) (fetch : HttpResult) (now : DateTime) (s : Submission) (t : Table) :
    Ended HttpResponse :=
  match pullReply fetch s with
  | .ok response => ⟨save now s t, [.pulled s (.ok response)], .ok response⟩
  | .error e =>
      if cfg.atomicRequests then ⟨t, [], .error e⟩
      else ⟨save now s t, [.pulled s (.error e)], .error e⟩

/-- `get_submission` -/
def getSubmission (cfg : Config) (env : PullEnv) (request : HttpRequest) (t : Table) : Ended HttpResponse :=
  match getSubmissionChecks cfg request with
  | .error response => ⟨t, [], .ok response⟩
  | .ok queueName =>
      match getSingleUnretiredSubmission cfg env.plan env.queryTime queueName t with
      | none => ⟨t, [], .ok (.failure (py "Queue '" ++ queueName ++ py "' is empty"))⟩
      | some submission =>
          match submission.pull cfg request env.pullTime with
          | .error e => ⟨t, [], .error e⟩
          | .ok submission => servePull cfg env.fetch env.pullTime submission t

/-! ## put_result -/

/-- The values `_is_valid_reply` returns when it accepts. -/
structure ValidReply where
  submissionId : Int
  submissionKey : Json
  graderReply : PyStr

/-- `int(v)` -/
def toInt : Json → Except PyExc Int
  | .null => .error .typeError
  -- a Python bool is an int
  | .bool b => .ok (if b then 1 else 0)
  | .int n => .ok n
  | .float .nan => .error .valueError
  | .float (.infinity _) => .error .overflowError
  | .float (.finite negative mantissa exponent) => .ok (PyFloat.truncate negative mantissa exponent)
  | .str s =>
      match PyStr.toInt? s with
      | some n => .ok n
      | none => .error .valueError
  | .arr _ => .error .typeError
  | .obj _ => .error .typeError

/-- `_is_valid_reply` of a dictionary; `none` is its failure tuple. -/
def isValidReply (nesting : Nat) (externalReply : QueryDict) : Except PyExc (Option ValidReply) :=
  match QueryDict.get? externalReply (py "xqueue_header"),
    QueryDict.get? externalReply (py "xqueue_body") with
  | some header, some scoreMsg =>
      match Json.decode nesting header with
      -- only `TypeError` and `ValueError` are caught
      | .error .depth => .error .recursionError
      | .error _ => .ok none
      | .ok (.obj members) =>
          match members.lookup (py "submission_id"), members.lookup (py "submission_key") with
          | some submissionId, some submissionKey =>
              -- outside the `try`: what `int()` raises escapes
              match toInt submissionId with
              | .error e => .error e
              | .ok submissionId => .ok (some ⟨submissionId, submissionKey, scoreMsg⟩)
          | _, _ => .ok none
      | .ok _ => .ok none
  | _, _ => .ok none

theorem plain_extHeader {submissionId : Nat} {pullkey : PyStr} (hid : submissionId ≤ maxId)
    (hkey : PyStr.Encodable pullkey) :
    Json.Plain (.obj [(py "submission_id", .int submissionId), (py "submission_key", .str pullkey)]) := by
  refine Json.Plain.obj_of_keys [py "submission_id", py "submission_key"] rfl (by decide) (by decide) ?_
  intro m hm
  simp only [List.mem_cons, List.not_mem_nil, or_false] at hm
  rcases hm with rfl | rfl
  · refine Json.Plain.int (Nat.le_trans (PyStr.length_ofNat_le (k := 10) (by decide) ?_) (by decide))
    exact Nat.lt_of_le_of_lt hid (by decide)
  · exact Json.Plain.str hkey

/-- A header that a pull has handed out decodes to the id and the key of the pull. -/
theorem isValidReply_extHeader {nesting : Nat} {reply : QueryDict} {submissionId : Nat}
    {pullkey body : PyStr} (hnesting : 0 < nesting) (hid : submissionId ≤ maxId)
    (hheader : QueryDict.get? reply (py "xqueue_header") = some (extHeader submissionId pullkey))
    (hbody : QueryDict.get? reply (py "xqueue_body") = some body)
    (hkey : PyStr.Encodable pullkey) :
    isValidReply nesting reply = .ok (some ⟨submissionId, .str pullkey, body⟩) := by
  -- the header is an object of a number and a string
  have hdecode : Json.decode nesting (extHeader submissionId pullkey) = .ok
      (.obj [(py "submission_id", .int submissionId), (py "submission_key", .str pullkey)]) :=
    Json.decode_dumps (plain_extHeader hid hkey) hnesting
  have hne : (py "submission_key" == py "submission_id") = false := by decide
  simp [isValidReply, hheader, hbody, hdecode, List.lookup_cons, hne, toInt]

/-- `Submission.objects.get(id=..)`; no row has a negative id. -/
def getById (submissionId : Int) (t : Table) : Option Submission :=
  if submissionId < 0 then none else t.get? submissionId.toNat

theorem getById_eq_some_iff {n : Int} {t : Table} {s : Submission} :
    getById n t = some s ↔ s ∈ t ∧ (s.id : Int) = n := by
  by_cases hneg : n < 0
  · simp only [getById, hneg, if_true, reduceCtorEq, false_iff, not_and]
    intro _
    omega
  · simp only [getById, hneg, if_false, KeyedTable.get?_eq_some_iff]
    refine and_congr Iff.rfl ?_
    omega

/-- The key check: a submission that was never pulled has an empty key. -/
def keyMatches (submissionKey : Json) (s : Submission) : Bool :=
  s.pullkey ≠ [] && submissionKey.isStr s.pullkey

/-- What the view checks before it changes anything: the locked row and the result, or how
the request ends. -/
def putResultChecks (request : HttpRequest) (t : Table) :
    Except (Except PyExc HttpResponse) (Submission × PyStr) :=
  if !request.isAuthenticated then .error (.ok .loginRedirect)
  else if request.method ≠ py "POST" then
    .error (.ok (.failure (py "'put_result' must use HTTP POST")))
  else
    match isValidReply request.nesting request.post with
    | .error e => .error (.error e)
    | .ok none => .error (.ok (.failure (py "Incorrect reply format")))
    | .ok (some valid) =>
        match getById valid.submissionId t with
        | none => .error (.ok (.failure (py "Submission does not exist")))
        | some submission =>
            if keyMatches valid.submissionKey submission then .ok (submission, valid.graderReply)
            else .error (.ok (.failure (py "Incorrect key for submission")))

/-- The request names the row and its key, and carries the result. -/
def AcceptedFor (request : HttpRequest) (s : Submission) (graderReply : PyStr) : Prop :=
  ∃ valid, isValidReply request.nesting request.post = .ok (some valid) ∧ (s.id : Int) = valid.submissionId ∧
    keyMatches valid.submissionKey s = true ∧ valid.graderReply = graderReply

/-- A request gets past the checks exactly when it names a stored row and its key. -/
theorem putResultChecks_eq_ok {request : HttpRequest} {t : Table} {s : Submission}
    {graderReply : PyStr} : putResultChecks request t = .ok (s, graderReply) ↔
      request.isAuthenticated = true ∧ request.method = py "POST" ∧ s ∈ t ∧
        AcceptedFor request s graderReply := by
  by_cases hauth : request.isAuthenticated = true
  · by_cases hmethod : request.method = py "POST"
    · rcases hreply : isValidReply request.nesting request.post with e | _ | valid
      · simp [putResultChecks, AcceptedFor, hauth, hmethod, hreply]
      · simp [putResultChecks, AcceptedFor, hauth, hmethod, hreply]
      · cases hget : getById valid.submissionId t with
        | none =>
            -- no row has the id
            have hno : ∀ r, ¬ (r ∈ t ∧ (r.id : Int) = valid.submissionId) := by
              intro r hr
              rw [← getById_eq_some_iff, hget] at hr
              exact absurd hr (by simp)
            simp only [putResultChecks, AcceptedFor, hauth, hmethod, hreply, hget]
            simpa using fun hs hid => absurd ⟨hs, hid⟩ (hno s)
        | some r =>
            have hr := getById_eq_some_iff.1 hget
            have huniq : s ∈ t ∧ (s.id : Int) = valid.submissionId ↔ s = r := by
              rw [← getById_eq_some_iff, hget, Option.some.injEq, eq_comm]
            by_cases hkey : keyMatches valid.submissionKey r = true
            · simp only [putResultChecks, AcceptedFor, hauth, hmethod, hreply, hget, hkey]
              constructor
              · intro h
                simp only [Bool.not_true, Bool.false_eq_true, if_false, ne_eq, not_true_eq_false,
                  if_true, Except.ok.injEq, Prod.mk.injEq] at h
                rcases h with ⟨rfl, rfl⟩
                exact ⟨trivial, trivial, hr.1, valid, rfl, hr.2, hkey, rfl⟩
              · rintro ⟨-, -, hs, valid', hv, hid, -, rfl⟩
                cases hv
                rw [huniq.1 ⟨hs, hid⟩]
                simp
            · simp only [putResultChecks, AcceptedFor, hauth, hmethod, hreply, hget, hkey]
              constructor
              · intro h
                simp at h
              · rintro ⟨-, -, hs, valid', hv, hid, hk, -⟩
                cases hv
                rw [huniq.1 ⟨hs, hid⟩] at hk
                exact absurd hk hkey
    · simp [putResultChecks, hauth, hmethod]
  · simp [putResultChecks, hauth]

/-- The result on the instance read: deliver it, count a failure, and retire the row when it
is acknowledged or has failed too often. -/
def Submission.putResult (cfg : Config) (env : WorkEnv) (request : HttpRequest)
    (graderReply : PyStr) (row : Submission) : Work :=
  let s := { row with returnTime := some env.now, graderReply := graderReply }
  let rest := (s.deliver env.lms graderReply).andAssign (fun success =>
    let s := { s with lmsAck := success }
    let s := if success then s else { s with numFailures := s.numFailures + 1 }
    -- within the limit the flag follows the delivery, up or down
    if cfg.maxNumberOfFailures < s.numFailures then { s with retired := true }
    else { s with retired := s.lmsAck })
  (.accepted request row :: rest.1, rest.2)

/-- `put_result`, one transaction: an exception leaves the table as it was. -/
def putResult (cfg : Config) (env : WorkEnv) (request : HttpRequest) (t : Table) :
    Ended HttpResponse :=
  match putResultChecks request t with
  | .error response => ⟨t, [], response⟩
  | .ok (submission, graderReply) =>
      let ended := (submission.putResult cfg env request graderReply).finish env.now t
      ⟨ended.table, ended.outputs, ended.result.map (fun _ => .reply true (.str []))⟩

end Xqueue
