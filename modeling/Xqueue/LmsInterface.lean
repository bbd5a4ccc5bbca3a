import Xqueue.Consumer

/-!
# LmsInterface — the submit view

This file embeds `submission_queue/lms_interface.py`:

* `isValidRequest` : `_is_valid_request`;
* `invalidatePriorSubmissions` : the UPDATE of `_invalidate_prior_submissions`;
* `Storage`, `upload`, `uploadFileDict`, `uploadFiles` : the uploads, over any storage backend;
* `submit` : the view, which commits the invalidation before the uploads and the insert.

`submitChecks`, `invalidatePriorSubmissions` and `storeSubmission` are the parts of `submit`,
in the order in which it runs them; the last two touch the table once each.
-/

namespace Xqueue

open Library

/-! ## Validation -/

/-- The values `_is_valid_request` returns when it accepts. -/
structure ValidRequest where
  lmsCallbackUrl : Json
  queueName : PyStr
  header : PyStr
  body : PyStr

/-- `_is_valid_request`; `none` is its failure tuple. -/
def isValidRequest (cfg : Config) (nesting : Nat) (xrequest : QueryDict) :
    Except PyExc (Option ValidRequest) :=
  match QueryDict.get? xrequest (py "xqueue_header"), QueryDict.get? xrequest (py "xqueue_body") with
  | some header, some body =>
      match Json.decode nesting header with
      -- only `TypeError` and `ValueError` are caught
      | .error .depth => .error .recursionError
      | .error _ => .ok none
      | .ok (.obj members) =>
          match members.lookup (py "lms_callback_url"), members.lookup (py "lms_key"),
            members.lookup (py "queue_name") with
          | some lmsCallbackUrl, some _, some queueName =>
              .ok (some ⟨lmsCallbackUrl, Json.pyStr cfg.isPrintable queueName, header, body⟩)
          | _, _, _ => .ok none
      | .ok _ => .ok none
  | _, _ => .ok none

/-- What the view checks before it touches the database, or how the request ends. -/
def submitChecks (cfg : Config) (request : HttpRequest) :
    Except (Except PyExc HttpResponse) ValidRequest :=
  if !request.isAuthenticated then .error (.ok .loginRedirect)
  else if request.method ≠ py "POST" then
    .error (.ok (.failure (py "Queue requests should use HTTP POST")))
  else
    match isValidRequest cfg request.nesting request.post with
    | .error e => .error (.error e)
    | .ok none => .error (.ok (.failure (py "Queue request has invalid format")))
    | .ok (some valid) =>
        if !cfg.hasQueue valid.queueName then
          .error (.ok (.failure (py "Queue '" ++ valid.queueName ++ py "' not found")))
        else .ok valid

/-- An accepted request carries its header and body verbatim, and the header is an object with
the three tags. -/
theorem isValidRequest_eq_some {cfg : Config} {nesting : Nat} {xrequest : QueryDict}
    {valid : ValidRequest} (h : isValidRequest cfg nesting xrequest = .ok (some valid)) :
    QueryDict.get? xrequest (py "xqueue_header") = some valid.header ∧
      QueryDict.get? xrequest (py "xqueue_body") = some valid.body ∧
      ∃ members lmsKey queueName, Json.decode nesting valid.header = .ok (.obj members) ∧
        members.lookup (py "lms_callback_url") = some valid.lmsCallbackUrl ∧
        members.lookup (py "lms_key") = some lmsKey ∧
        members.lookup (py "queue_name") = some queueName ∧
        valid.queueName = Json.pyStr cfg.isPrintable queueName := by
  unfold isValidRequest at h
  split at h
  · rename_i header body hheader hbody
    split at h
    · cases h
    · cases h
    · rename_i members hdecode
      split at h
      · rename_i lmsCallbackUrl lmsKey queueName hurl hkey hname
        cases h
        exact ⟨hheader, hbody, members, lmsKey, queueName, hdecode, hurl, hkey, hname, rfl⟩
      · cases h
    · cases h
  · cases h

theorem submitChecks_eq_ok {cfg : Config} {request : HttpRequest} {valid : ValidRequest} :
    submitChecks cfg request = .ok valid ↔
      request.isAuthenticated = true ∧ request.method = py "POST" ∧
        isValidRequest cfg request.nesting request.post = .ok (some valid) ∧
        cfg.hasQueue valid.queueName = true := by
  by_cases hauth : request.isAuthenticated = true
  · by_cases hmethod : request.method = py "POST"
    · rcases hvalid : isValidRequest cfg request.nesting request.post with e | _ | v
      · simp [submitChecks, hauth, hmethod, hvalid]
      · simp [submitChecks, hauth, hmethod, hvalid]
      · by_cases hqueue : cfg.hasQueue v.queueName = true
        · simp only [submitChecks, hauth, hmethod, hvalid, hqueue]
          simp only [Bool.not_true, Bool.false_eq_true, if_false, ne_eq, not_true_eq_false,
            Except.ok.injEq, true_and, Option.some.injEq]
          constructor
          · rintro rfl
            exact ⟨rfl, hqueue⟩
          · exact fun h => h.1
        · simp only [submitChecks, hauth, hmethod, hvalid, hqueue]
          simp only [Bool.not_true, Bool.false_eq_true, if_false, ne_eq, not_true_eq_false,
            Bool.not_false, if_true, reduceCtorEq, true_and, Except.ok.injEq,
            Option.some.injEq, false_iff, not_and]
          rintro rfl
          exact hqueue
    · simp [submitChecks, hauth, hmethod]
  · simp [submitChecks, hauth]

/-- The callback that the view validates is the one that a delivery for the header posts to. -/
theorem lmsCallbackUrl_of_submitChecks {cfg : Config} {request : HttpRequest} {valid : ValidRequest}
    (h : submitChecks cfg request = .ok valid) :
    lmsCallbackUrl valid.header = .ok valid.lmsCallbackUrl := by
  rcases submitChecks_eq_ok.1 h with ⟨-, -, hvalid, -⟩
  rcases isValidRequest_eq_some hvalid with ⟨-, -, members, -, -, hdecode, hurl, -⟩
  exact lmsCallbackUrl_eq_ok.2 ⟨members, Json.loads_of_decode hdecode, hurl⟩

/-! ## The stored callback -/

/-- `lms_callback_url[:128]` -/
def sliceCallback : Json → Except PyExc Json
  | .str s => .ok (.str (s.take 128))
  | .arr items => .ok (.arr (items.take 128))
  -- a slice can be a key, and no decoded dictionary has it
  | .obj _ => .error .keyError
  | _ => .error .typeError

/-- A value as a `CharField` passes it to the database driver. -/
def charField (cfg : Config) (v : Json) : Except PyExc PyStr :=
  let s := Json.pyStr cfg.isPrintable v
  if PyStr.Encodable s then .ok s else .error .unicodeEncodeError

/-- The text under which the callback is stored and looked up. -/
def storedCallback (cfg : Config) (lmsCallbackUrl : Json) : Except PyExc PyStr :=
  match sliceCallback lmsCallbackUrl with
  | .error e => .error e
  | .ok slice => charField cfg slice

theorem storedCallback_str {cfg : Config} {u : PyStr} {callback : PyStr}
    (h : storedCallback cfg (.str u) = .ok callback) : callback = u.take 128 := by
  by_cases henc : PyStr.Encodable (u.take 128)
  · simpa [storedCallback, sliceCallback, charField, Json.pyStr, henc] using h.symm
  · simp [storedCallback, sliceCallback, charField, Json.pyStr, henc] at h

def Submission.retire (s : Submission) : Submission :=
  { s with retired := true }

@[simp] theorem id_retire {s : Submission} : s.retire.id = s.id :=
  rfl

/-- The prior submissions that a callback stored as `callback` supersedes. -/
def isPrior (callback : PyStr) (s : Submission) : Bool :=
  s.lmsCallbackUrl == callback && !s.retired

/-- `_invalidate_prior_submissions`: one UPDATE that retires the prior submissions. -/
def invalidatePriorSubmissions (callback : PyStr) (t : Table) : Table :=
  t.updateWhere (isPrior callback) Submission.retire (fun _ => rfl)

theorem mem_invalidate {callback : PyStr} {t : Table} {r : Submission} :
    r ∈ invalidatePriorSubmissions callback t ↔
      ∃ s ∈ t, (if isPrior callback s then s.retire else s) = r :=
  KeyedTable.mem_updateWhere

@[simp] theorem isPrior_retire {callback : PyStr} {s : Submission} :
    isPrior callback s.retire = false := by
  simp [isPrior, Submission.retire]

theorem isPrior_iff {callback : PyStr} {s : Submission} :
    isPrior callback s = true ↔ s.lmsCallbackUrl = callback ∧ s.retired = false := by
  simp [isPrior]

/-- Every row of the new table has just been retired, or is a row of the old one. -/
theorem mem_invalidate_cases {callback : PyStr} {t : Table} {r : Submission}
    (h : r ∈ invalidatePriorSubmissions callback t) :
    (∃ s ∈ t, isPrior callback s = true ∧ r = s.retire) ∨ (r ∈ t ∧ isPrior callback r = false) := by
  rcases mem_invalidate.1 h with ⟨s, hs, rfl⟩
  by_cases hprior : isPrior callback s = true
  · exact Or.inl ⟨s, hs, hprior, by simp [hprior]⟩
  · rw [if_neg hprior]
    exact Or.inr ⟨hs, by simpa using hprior⟩

/-- A row that the callback does not supersede stays as it is. -/
theorem mem_invalidate_of_not_isPrior {callback : PyStr} {t : Table} {r : Submission} (hr : r ∈ t)
    (h : isPrior callback r = false) : r ∈ invalidatePriorSubmissions callback t :=
  mem_invalidate.2 ⟨r, hr, by simp [h]⟩

/-! ## Uploads -/

/-- A storage backend: `save` may raise, and answers the name it has chosen. -/
structure Storage (σ : Type) where
  save : σ → PyStr → PyStr → σ × Except PyExc PyStr
  url : σ → PyStr → Except PyExc PyStr

variable {σ : Type}

/-- `os.path.join` -/
def pathJoin (path name : PyStr) : PyStr :=
  if name.head? = some (ch '/') then name
  else if path = [] ∨ path.getLast? = some (ch '/') then path ++ name
  else path ++ ch '/' :: name

/-- `_upload` -/
def upload (storage : Storage σ) (st : σ) (content path name : PyStr) : σ × Except PyExc PyStr :=
  let fullPath := pathJoin path name
  match storage.save st fullPath content with
  | (st, .error e) => (st, .error e)
  | (st, .ok _) => (st, storage.url st fullPath)

/-- `_upload_file_dict` -/
def uploadFileDict (storage : Storage σ) (st : σ) (fileDict keyDict : List (PyStr × Json))
    (path name : PyStr) : σ × Except PyExc PyStr :=
  upload storage st (Json.dumps (.obj [(py "files", .obj fileDict), (py "keys", .obj keyDict)]))
    path name

/-- The loop over `request.FILES`, with the dictionaries of URLs and keys built so far. -/
def uploadEach (cfg : Config) (storage : Storage σ) (header queueName : PyStr) :
    List (PyStr × PyStr) → σ → List (PyStr × Json) → List (PyStr × Json) →
      σ × Except PyExc (List (PyStr × Json) × List (PyStr × Json))
  | [], st, urls, keys => (st, .ok (urls, keys))
  | (filename, content) :: files, st, urls, keys =>
      match makeHashkey cfg (header ++ filename) with
      | .error e => (st, .error e)
      | .ok key =>
          match upload storage st content queueName key with
          | (st, .error e) => (st, .error e)
          | (st, .ok url) =>
              uploadEach cfg storage header queueName files st
                (Json.setItem urls filename (.str url)) (Json.setItem keys filename (.str key))

/-- The uploads of a request: the JSON texts of the URL map and of the key map, or of the
two maps that point to a stored file dictionary when the first is too long. -/
def uploadFiles (cfg : Config) (storage : Storage σ) (st : σ) (request : HttpRequest)
    (header queueName : PyStr) : σ × Except PyExc (PyStr × PyStr) :=
  match uploadEach cfg storage header queueName request.files st [] [] with
  | (st, .error e) => (st, .error e)
  | (st, .ok (urls, keys)) =>
      let urlsJson := Json.dumps (.obj urls)
      let keysJson := Json.dumps (.obj keys)
      if charfieldLenLarge < urlsJson.length then
        -- only the URLs are measured, but both maps are replaced
        let names := Json.dumps (.arr (request.files.map (fun f => Json.str f.1)))
        match makeHashkey cfg (header ++ names) with
        | .error e => (st, .error e)
        | .ok key =>
            match uploadFileDict storage st urls keys queueName key with
            | (st, .error e) => (st, .error e)
            | (st, .ok url) =>
                (st, .ok (Json.dumps (.obj [(py "URL_FOR_EXTERNAL_DICTS", .str url)]),
                  Json.dumps (.obj [(py "KEY_FOR_EXTERNAL_DICTS", .str key)])))
      else (st, .ok (urlsJson, keysJson))

/-- The map of URLs is stored as a dump. -/
theorem encodable_of_uploadFiles {cfg : Config} {storage : Storage σ} {st st' : σ}
    {request : HttpRequest} {header queueName urlsJson keysJson : PyStr}
    (h : uploadFiles cfg storage st request header queueName = (st', .ok (urlsJson, keysJson))) :
    PyStr.Encodable urlsJson := by
  simp only [uploadFiles] at h
  split at h
  · cases h
  · split at h
    · -- the file dictionary is stored apart
      split at h
      · cases h
      · split at h
        · cases h
        · cases h
          exact Json.encodable_dumps _
    · cases h
      exact Json.encodable_dumps _

/-! ## The view -/

/-- What the outside answers to a submit request, its storage apart. -/
structure SubmitEnv where
  /-- `timezone.now()` of the INSERT, and `datetime.now` of the queue length. -/
  now : DateTime
  countTime : DateTime
  /-- The database takes the INSERT, if it has an id left for it. -/
  dbAccepts : Bool

/-- The row that a request inserts under the key `id`. -/
def newSubmission (request : HttpRequest) (valid : ValidRequest) (callback s3Urls s3Keys : PyStr)
    (now : DateTime) (id : Nat) : Submission where
  id := id
  requesterId := getRequestIp request
  lmsCallbackUrl := callback
  queueName := valid.queueName
  xqueueHeader := valid.header
  xqueueBody := valid.body
  s3Keys := s3Keys
  s3Urls := s3Urls
  arrivalTime := now
  pullTime := none
  pushTime := none
  returnTime := none
  graderId := []
  pullkey := []
  graderReply := []
  numFailures := 0
  lmsAck := false
  retired := false

theorem id_newSubmission (request : HttpRequest) (valid : ValidRequest)
    (callback s3Urls s3Keys : PyStr) (now : DateTime) (id : Nat) :
    (newSubmission request valid callback s3Urls s3Keys now id).id = id :=
  rfl

/-- The view after the invalidation: the uploads, the INSERT and the reply. -/
def storeSubmission (cfg : Config) (storage : Storage σ) (env : SubmitEnv) (request : HttpRequest)
    (valid : ValidRequest) (callback : PyStr) (st : σ) (t : Table) : σ × Ended HttpResponse :=
  match uploadFiles cfg storage st request valid.header valid.queueName with
  | (st, .error e) => (st, ⟨t, [], .error e⟩)
  | (st, .ok (urlsJson, keysJson)) =>
      if env.dbAccepts && decide (t.nextKey ≤ maxId) then
        let mk := newSubmission request valid callback urlsJson keysJson env.now
        let t' : Table := t.insert mk (fun _ => rfl)
        let qcount := getQueueLength cfg env.countTime valid.queueName t'
        (st, ⟨t', [.inserted request (mk t.nextKey)],
          .ok (.reply true (.str (PyStr.ofNat qcount)))⟩)
      else (st, ⟨t, [], .error .databaseError⟩)

/-- The table after the invalidation changes by the INSERT alone. -/
theorem storeSubmission_cases (cfg : Config) (storage : Storage σ) (env : SubmitEnv)
    (request : HttpRequest) (valid : ValidRequest) (callback : PyStr) (st : σ) (t : Table) :
    ((storeSubmission cfg storage env request valid callback st t).2.table = t ∧
      (storeSubmission cfg storage env request valid callback st t).2.outputs = []) ∨
    ∃ urlsJson keysJson, PyStr.Encodable urlsJson ∧ t.nextKey ≤ maxId ∧
      let mk := newSubmission request valid callback urlsJson keysJson env.now
      (storeSubmission cfg storage env request valid callback st t).2.table =
        t.insert mk (fun _ => rfl) ∧
      (storeSubmission cfg storage env request valid callback st t).2.outputs =
        [.inserted request (mk t.nextKey)] := by
  rcases hup : uploadFiles cfg storage st request valid.header valid.queueName with
    ⟨st', e | ⟨urlsJson, keysJson⟩⟩
  · simp [storeSubmission, hup]
  · by_cases hdb : (env.dbAccepts && decide (t.nextKey ≤ maxId)) = true
    · have hurls : PyStr.Encodable urlsJson := encodable_of_uploadFiles hup
      have hid : t.nextKey ≤ maxId := by simpa using (Bool.and_eq_true_iff.1 hdb).2
      exact Or.inr ⟨urlsJson, keysJson, hurls, hid, by simp only [storeSubmission, hup, hdb]; simp⟩
    · exact Or.inl (by simp only [storeSubmission, hup, hdb]; simp)

/-- `submit` -/
def submit (cfg : Config) (storage : Storage σ) (env : SubmitEnv) (request : HttpRequest) (st : σ)
    (t : Table) : σ × Ended HttpResponse :=
  match submitChecks cfg request with
  | .error response => (st, ⟨t, [], response⟩)
  | .ok valid =>
      match storedCallback cfg valid.lmsCallbackUrl with
      | .error e => (st, ⟨t, [], .error e⟩)
      | .ok callback =>
          -- the invalidation is committed before anything that can still fail
          let (st, ended) :=
            storeSubmission cfg storage env request valid callback st
              (invalidatePriorSubmissions callback t)
          (st, { ended with outputs := .invalidated callback :: ended.outputs })

end Xqueue
