import Xqueue.LifeCycle

/-!
# Operations — all ways a whole operation can end

Each of the four operations of the service, as one step on the table.  An inductive relation
lists the ways in which the operation can end, with what each says about the request, the rows
and the outside, so that no later proof unfolds the view again:

* `Submitted` : a submit request is refused, fails after the invalidation, or inserts its row;
* `Replied` : the reply of a pull carries the stored map or a fetched one, or is an error;
* `Pulled` : a pull is refused, finds the queue empty, or is served;
* `Returned` : a result is refused, raises an exception, or is saved;
* `Pushed` : a push worker finds nothing, raises an exception, or saves the row.
-/

namespace Xqueue

open Library

variable {σ : Type} {cfg : Config} {t : Table}

/-! ## submit -/

/-- The table after the invalidation and the INSERT. -/
def storedTable (request : HttpRequest) (valid : ValidRequest) (callback s3Urls s3Keys : PyStr)
    (now : DateTime) (t : Table) : Table :=
  (invalidatePriorSubmissions callback t).insert
    (newSubmission request valid callback s3Urls s3Keys now)
    (id_newSubmission request valid callback s3Urls s3Keys now)

theorem mem_storedTable {request : HttpRequest} {valid : ValidRequest}
    {callback s3Urls s3Keys : PyStr} {now : DateTime} {r : Submission} :
    r ∈ storedTable request valid callback s3Urls s3Keys now t ↔
      r ∈ invalidatePriorSubmissions callback t ∨
        r = newSubmission request valid callback s3Urls s3Keys now t.nextKey :=
  KeyedTable.mem_insert

inductive Submitted (cfg : Config) (storage : Storage σ) (env : SubmitEnv) (request : HttpRequest)
    (st : σ) (t : Table) : σ × Ended HttpResponse → Prop
  | refused {result : Except PyExc HttpResponse} : (∀ content, result ≠ .ok (.reply true content)) →
      Submitted cfg storage env request st t (st, ⟨t, [], result⟩)
  /-- An upload or the INSERT has failed, after the invalidation. -/
  | failed {valid : ValidRequest} {callback : PyStr} (st' : σ) (e : PyExc) :
      submitChecks cfg request = .ok valid →
      storedCallback cfg valid.lmsCallbackUrl = .ok callback →
        Submitted cfg storage env request st t
          (st', ⟨invalidatePriorSubmissions callback t, [.invalidated callback], .error e⟩)
  | stored {valid : ValidRequest} {callback urlsJson keysJson : PyStr} {st' : σ} :
      submitChecks cfg request = .ok valid →
      storedCallback cfg valid.lmsCallbackUrl = .ok callback →
      uploadFiles cfg storage st request valid.header valid.queueName =
        (st', .ok (urlsJson, keysJson)) →
        Submitted cfg storage env request st t
          (st', ⟨storedTable request valid callback urlsJson keysJson env.now t,
            [.invalidated callback,
              .inserted request (newSubmission request valid callback urlsJson keysJson env.now t.nextKey)],
            .ok (.reply true (.str (PyStr.ofNat (getQueueLength cfg env.countTime valid.queueName
              (storedTable request valid callback urlsJson keysJson env.now t)))))⟩)

/-- A request that fails the checks gets no success reply. -/
theorem not_success_of_submitChecks {request : HttpRequest} {result : Except PyExc HttpResponse}
    (h : submitChecks cfg request = .error result) (content : Json) :
    result ≠ .ok (.reply true content) := by
  unfold submitChecks at h
  split at h
  · cases h
    simp
  · split at h
    · cases h
      simp [HttpResponse.failure]
    · split at h
      · cases h
        simp
      · cases h
        simp [HttpResponse.failure]
      · split at h
        · cases h
          simp [HttpResponse.failure]
        · cases h

theorem submitted_submit (cfg : Config) (storage : Storage σ) (env : SubmitEnv)
    (request : HttpRequest) (st : σ) (t : Table) :
    Submitted cfg storage env request st t (submit cfg storage env request st t) := by
  cases hchecks : submitChecks cfg request with
  | error result =>
      simp only [submit, hchecks]
      exact Submitted.refused (not_success_of_submitChecks hchecks)
  | ok valid =>
      cases hcallback : storedCallback cfg valid.lmsCallbackUrl with
      | error e =>
          simp only [submit, hchecks, hcallback]
          exact Submitted.refused (by simp)
      | ok callback =>
          rcases hup : uploadFiles cfg storage st request valid.header valid.queueName with
            ⟨st', e | ⟨urlsJson, keysJson⟩⟩
          · simp only [submit, storeSubmission, hchecks, hcallback, hup]
            exact Submitted.failed st' e hchecks hcallback
          · by_cases hdb : (env.dbAccepts &&
                decide ((invalidatePriorSubmissions callback t).nextKey ≤ maxId)) = true
            · simp only [submit, storeSubmission, hchecks, hcallback, hup, hdb, if_true]
              exact Submitted.stored hchecks hcallback hup
            · simp only [submit, storeSubmission, hchecks, hcallback, hup, hdb]
              exact Submitted.failed st' .databaseError hchecks hcallback

/-- The request is answered with return code 0. -/
def isSuccessReply : Except PyExc HttpResponse → Bool
  | .ok response => response.isSuccess
  | .error _ => false

theorem exists_inserted {storage : Storage σ} {env : SubmitEnv} {request : HttpRequest} {st : σ}
    (h : isSuccessReply (submit cfg storage env request st t).2.result = true) :
    ∃ row, .inserted request row ∈ (submit cfg storage env request st t).2.outputs := by
  have hcases := submitted_submit cfg storage env request st t
  generalize submit cfg storage env request st t = ended at hcases h
  cases hcases with
  | @refused result hno =>
      rcases result with e | ⟨_ | _, content⟩ | _
      · cases h
      · cases h
      · exact absurd rfl (hno content)
      · cases h
  | failed => cases h
  | stored => exact ⟨_, List.mem_cons_of_mem _ List.mem_cons_self⟩

/-- A row that a submit has inserted: it stores what the request carries and the map of the uploads,
and the reply is the length of its queue. -/
theorem stored_of_inserted {storage : Storage σ} {env : SubmitEnv} {request request' : HttpRequest}
    {st : σ} {row : Submission}
    (h : .inserted request' row ∈ (submit cfg storage env request st t).2.outputs) :
    request' = request ∧ ∃ valid callback urlsJson keysJson,
      submitChecks cfg request = .ok valid ∧
      uploadFiles cfg storage st request valid.header valid.queueName =
        ((submit cfg storage env request st t).1, .ok (urlsJson, keysJson)) ∧
      row = newSubmission request valid callback urlsJson keysJson env.now t.nextKey ∧
      row ∈ (submit cfg storage env request st t).2.table ∧
      (submit cfg storage env request st t).2.result =
        .ok (.reply true (.str (PyStr.ofNat (getQueueLength cfg env.countTime row.queueName
          (submit cfg storage env request st t).2.table)))) := by
  have hcases := submitted_submit cfg storage env request st t
  generalize submit cfg storage env request st t = ended at hcases h
  cases hcases with
  | refused => simp at h
  | failed => simp at h
  | @stored valid callback urlsJson keysJson st' hchecks hcallback hup =>
      simp only [List.mem_cons, reduceCtorEq, false_or, List.not_mem_nil, or_false,
        Output.inserted.injEq] at h
      rcases h with ⟨rfl, rfl⟩
      exact ⟨rfl, valid, callback, urlsJson, keysJson, hchecks, hup, rfl, mem_storedTable.2 (Or.inr rfl), rfl⟩

/-! ## The reply of a pull -/

def urlMarker : PyStr :=
  py "URL_FOR_EXTERNAL_DICTS"

/-- `json.loads(submission.urls) if submission.urls else {}` -/
def Submission.decodedUrls (s : Submission) : Except PyExc Json :=
  if s.s3Urls = [] then .ok (.obj []) else jsonLoads s.s3Urls

/-- A pull takes the stored text for a pointer to a file dictionary at the URL. -/
def Submission.PointsTo (s : Submission) (url : Json) : Prop :=
  urlMarker <:+: s.s3Urls ∧ ∃ urls, s.decodedUrls = .ok urls ∧ subscript urlMarker urls = .ok url

/-- The call ends in a way that `get_submission` answers with an error reply. -/
def HttpResult.isFailure : HttpResult → Bool
  | .response statusCode _ => statusCode ≠ 200
  | .connectionError => true
  | .timeout => true
  | .raised _ => false

def fetchError (queueName : PyStr) : HttpResponse :=
  .failure (py "Error fetching submission for " ++ queueName ++ py ". Please try again.")

inductive Replied (fetch : HttpResult) (s : Submission) : Except PyExc HttpResponse → Prop
  | raised (e : PyExc) : Replied fetch s (.error e)
  | inline {urls : Json} : ¬ urlMarker <:+: s.s3Urls → s.decodedUrls = .ok urls →
      Replied fetch s (.ok (.reply true (.str (pullPayload s s.s3Urls))))
  | notFetched {url : Json} : s.PointsTo url → fetch.isFailure = true →
      Replied fetch s (.ok (fetchError s.queueName))
  | fetched {url : Json} {text files : PyStr} : s.PointsTo url → fetch = .response 200 text →
      externalFiles text = .ok files →
        Replied fetch s (.ok (.reply true (.str (pullPayload s files))))

theorem replied_pullReply (fetch : HttpResult) (s : Submission) :
    Replied fetch s (pullReply fetch s) := by
  unfold pullReply
  dsimp only
  split
  · exact Replied.raised _
  · rename_i urls hurls
    split
    · rename_i hmarker
      split
      · exact Replied.raised _
      · rename_i url hurl
        have hpoints : s.PointsTo url := ⟨hmarker, urls, hurls, hurl⟩
        split
        · exact Replied.notFetched hpoints rfl
        · exact Replied.notFetched hpoints rfl
        · exact Replied.raised _
        · rename_i statusCode text
          split
          · rename_i hstatus
            exact Replied.notFetched hpoints (by simpa [HttpResult.isFailure] using hstatus)
          · rename_i hstatus
            have hok : statusCode = 200 := by simpa using hstatus
            subst hok
            split
            · exact Replied.raised _
            · rename_i files hfiles
              exact Replied.fetched hpoints rfl hfiles
    · rename_i hmarker
      exact Replied.inline hmarker hurls

variable {fetch : HttpResult} {s : Submission} {content : Json}

theorem pullReply_of_inline {urls : Json} (hmarker : ¬ urlMarker <:+: s.s3Urls)
    (hurls : s.decodedUrls = .ok urls) :
    pullReply fetch s = .ok (.reply true (.str (pullPayload s s.s3Urls))) := by
  simp only [urlMarker, Submission.decodedUrls] at hmarker hurls
  simp only [pullReply, hurls, hmarker, if_false]

theorem pullReply_of_notFetched {url : Json} (h : s.PointsTo url) (hfetch : fetch.isFailure = true) :
    pullReply fetch s = .ok (fetchError s.queueName) := by
  rcases h with ⟨hmarker, urls, hurls, hurl⟩
  simp only [urlMarker, Submission.decodedUrls] at hmarker hurls hurl
  simp only [pullReply, hurls, hmarker, hurl, if_true]
  cases fetch with
  | response statusCode text =>
      have hstatus : statusCode ≠ 200 := by simpa [HttpResult.isFailure] using hfetch
      simp [hstatus, fetchError]
  | connectionError => rfl
  | timeout => rfl
  | raised e => cases hfetch

theorem pullReply_of_fetched {url : Json} {text files : PyStr} (h : s.PointsTo url)
    (hfiles : externalFiles text = .ok files) :
    pullReply (.response 200 text) s = .ok (.reply true (.str (pullPayload s files))) := by
  rcases h with ⟨hmarker, urls, hurls, hurl⟩
  simp only [urlMarker, Submission.decodedUrls] at hmarker hurls hurl
  simp [pullReply, hurls, hmarker, hurl, hfiles]

/-- A failure reply after the save is the one for a fetch that has failed. -/
theorem pullReply_eq_failure_iff : pullReply fetch s = .ok (.reply false content) ↔
    (∃ url, s.PointsTo url) ∧ fetch.isFailure = true ∧ fetchError s.queueName = .reply false content := by
  constructor
  · intro h
    have hcases := replied_pullReply fetch s
    rw [h] at hcases
    generalize hreply : (Except.ok (.reply false content) : Except PyExc HttpResponse) = reply at hcases
    cases hcases with
    | raised e => cases hreply
    | inline hmarker hurls => cases hreply
    | @notFetched url hpoints hfetch =>
        exact ⟨⟨url, hpoints⟩, hfetch, (Except.ok.inj hreply).symm⟩
    | fetched hpoints hfetch hfiles => cases hreply
  · rintro ⟨⟨url, hpoints⟩, hfetch, heq⟩
    rw [pullReply_of_notFetched hpoints hfetch, heq]

/-- The file map that a pull hands out: the stored text, or the files of a fetched dictionary. -/
inductive FilesServed (fetch : HttpResult) (s : Submission) : PyStr → Prop
  | inline {urls : Json} : ¬ urlMarker <:+: s.s3Urls → s.decodedUrls = .ok urls →
      FilesServed fetch s s.s3Urls
  | fetched {url : Json} {text files : PyStr} : s.PointsTo url → fetch = .response 200 text →
      externalFiles text = .ok files → FilesServed fetch s files

theorem pullReply_eq_success_iff : pullReply fetch s = .ok (.reply true content) ↔
    ∃ files, FilesServed fetch s files ∧ content = .str (pullPayload s files) := by
  constructor
  · intro h
    have hcases := replied_pullReply fetch s
    rw [h] at hcases
    generalize hreply : (Except.ok (.reply true content) : Except PyExc HttpResponse) = reply at hcases
    cases hcases with
    | raised e => cases hreply
    | inline hmarker hurls =>
        cases hreply
        exact ⟨s.s3Urls, FilesServed.inline hmarker hurls, rfl⟩
    | notFetched hpoints hfetch => cases hreply
    | @fetched url text files hpoints hfetch hfiles =>
        cases hreply
        exact ⟨files, FilesServed.fetched hpoints hfetch hfiles, rfl⟩
  · rintro ⟨files, hserved, rfl⟩
    cases hserved with
    | inline hmarker hurls => exact pullReply_of_inline hmarker hurls
    | fetched hpoints hfetch hfiles =>
        rw [hfetch]
        exact pullReply_of_fetched hpoints hfiles

theorem plain_pullPayload {files : PyStr} (hbody : PyStr.Encodable s.xqueueBody)
    (hfiles : PyStr.Encodable files) :
    Json.Plain (.obj [(py "xqueue_header", .str (extHeader s.id s.pullkey)),
      (py "xqueue_body", .str s.xqueueBody), (py "xqueue_files", .str files)]) := by
  refine Json.Plain.obj_of_keys [py "xqueue_header", py "xqueue_body", py "xqueue_files"] rfl
    (by decide) (by decide) ?_
  intro m hm
  simp only [List.mem_cons, List.not_mem_nil, or_false] at hm
  rcases hm with rfl | rfl | rfl
  · exact Json.Plain.str (Json.encodable_dumps _)
  · exact Json.Plain.str hbody
  · exact Json.Plain.str hfiles

theorem plain_graderPayload (hbody : PyStr.Encodable s.xqueueBody) (hurls : PyStr.Encodable s.s3Urls) :
    Json.Plain (.obj [(py "xqueue_body", .str s.xqueueBody), (py "xqueue_files", .str s.s3Urls)]) := by
  refine Json.Plain.obj_of_keys [py "xqueue_body", py "xqueue_files"] rfl (by decide) (by decide) ?_
  intro m hm
  simp only [List.mem_cons, List.not_mem_nil, or_false] at hm
  rcases hm with rfl | rfl
  · exact Json.Plain.str hbody
  · exact Json.Plain.str hurls

/-! ## get_submission -/

inductive Pulled (cfg : Config) (env : PullEnv) (request : HttpRequest) (t : Table) :
    Ended HttpResponse → Prop
  | refused {response : HttpResponse} : getSubmissionChecks cfg request = .error response →
      Pulled cfg env request t ⟨t, [], .ok response⟩
  | empty {queueName : PyStr} : getSubmissionChecks cfg request = .ok queueName →
      getSingleUnretiredSubmission cfg env.plan env.queryTime queueName t = none →
        Pulled cfg env request t
          ⟨t, [], .ok (.failure (py "Queue '" ++ queueName ++ py "' is empty"))⟩
  | served {queueName : PyStr} {s : Submission} : getSubmissionChecks cfg request = .ok queueName →
      getSingleUnretiredSubmission cfg env.plan env.queryTime queueName t = some s →
        Pulled cfg env request t
          (servePull cfg env.fetch env.pullTime (s.pulled cfg request env.pullTime) t)

theorem pulled_getSubmission (cfg : Config) (env : PullEnv) (request : HttpRequest) (t : Table) :
    Pulled cfg env request t (getSubmission cfg env request t) := by
  cases hchecks : getSubmissionChecks cfg request with
  | error response =>
      simp only [getSubmission, hchecks]
      exact Pulled.refused hchecks
  | ok queueName =>
      cases hget : getSingleUnretiredSubmission cfg env.plan env.queryTime queueName t with
      | none =>
          simp only [getSubmission, hchecks, hget]
          exact Pulled.empty hchecks hget
      | some s =>
          simp only [getSubmission, hchecks, hget, pull_eq_ok]
          exact Pulled.served hchecks hget

/-! ## put_result -/

inductive Returned (cfg : Config) (env : WorkEnv) (request : HttpRequest) (t : Table) :
    Ended HttpResponse → Prop
  | refused {result : Except PyExc HttpResponse} : putResultChecks request t = .error result →
      Returned cfg env request t ⟨t, [], result⟩
  | raised {s : Submission} {graderReply : PyStr} {e : PyExc} :
      putResultChecks request t = .ok (s, graderReply) →
      (s.deliver env.lms graderReply).outcome = .error e →
        Returned cfg env request t
          ⟨t, [.accepted request s, .delivered (s.deliver env.lms graderReply)], .error e⟩
  | saved {s : Submission} {graderReply : PyStr} {acked : Bool} :
      putResultChecks request t = .ok (s, graderReply) →
      (s.deliver env.lms graderReply).outcome = .ok acked →
        Returned cfg env request t
          ⟨save env.now (s.returned cfg env.now graderReply acked) t,
            [.accepted request s, .delivered (s.deliver env.lms graderReply)],
            .ok (.reply true (.str []))⟩

theorem returned_putResult (cfg : Config) (env : WorkEnv) (request : HttpRequest) (t : Table) :
    Returned cfg env request t (putResult cfg env request t) := by
  cases hchecks : putResultChecks request t with
  | error result =>
      simp only [putResult, hchecks]
      exact Returned.refused hchecks
  | ok pair =>
      rcases pair with ⟨s, graderReply⟩
      cases hout : (s.deliver env.lms graderReply).outcome with
      | error e =>
          simp only [putResult, hchecks, putResult_eq, hout, Except.map, Work.finish]
          exact Returned.raised hchecks hout
      | ok acked =>
          simp only [putResult, hchecks, putResult_eq, hout, Except.map, Work.finish]
          exact Returned.saved hchecks hout

/-! ## _deliver_submission -/

inductive Pushed (cfg : Config) (env : PushEnv) (worker : Worker) (t : Table) : Ended Unit → Prop
  | idle : getSingleUnpushedSubmission cfg env.plan env.queryTime worker.queueName t = none →
      Pushed cfg env worker t ⟨t, [], .ok ()⟩
  | raised {s : Submission} {os : List Output} {e : PyExc} :
      getSingleUnpushedSubmission cfg env.plan env.queryTime worker.queueName t = some s →
      worker.work env.toWorkEnv s = (os, .error e) → Pushed cfg env worker t ⟨t, os, .error e⟩
  | saved {s c : Submission} {os : List Output} :
      getSingleUnpushedSubmission cfg env.plan env.queryTime worker.queueName t = some s →
      worker.work env.toWorkEnv s = (os, .ok c) →
        Pushed cfg env worker t ⟨save env.returnTime c t, os, .ok ()⟩

theorem pushed_deliverSubmission (cfg : Config) (env : PushEnv) (worker : Worker) (t : Table) :
    Pushed cfg env worker t (worker.deliverSubmission cfg env t) := by
  cases hget : getSingleUnpushedSubmission cfg env.plan env.queryTime worker.queueName t with
  | none =>
      simp only [Worker.deliverSubmission, hget]
      exact Pushed.idle hget
  | some s =>
      rcases hwork : worker.work env.toWorkEnv s with ⟨os, e | c⟩
      · simp only [Worker.deliverSubmission, hget, hwork, Work.finish]
        exact Pushed.raised hget hwork
      · simp only [Worker.deliverSubmission, hget, hwork, Work.finish]
        exact Pushed.saved hget hwork

end Xqueue
