import Xqueue.GraderFiles

/-!
# SameWork — what a pull grader and a push grader are given

A push hands out the columns `xqueue_body` and `s3_urls` as they are.  A pull hands out the body
and the file map, which it fetches when it takes `s3_urls` for a pointer.

* `SameWork` : both hand out the same body and the same file map;
* `same_work_iff` : this is so exactly when the map is in its column and no pull takes it for a
  pointer;
* `spilled_map_differs` : it fails for a map that is too long for its column.
-/

namespace Xqueue

open Library
open Library.System

variable {σ : Type} {cfg : Config} {storage : Storage σ} {queueName : PyStr} {st : σ}
  {fetch : HttpResult} {s : Submission}

/-- The pull is a success, and its payload has the body and the files of the other payload. -/
def SameWork (result : Except PyExc HttpResponse) (payload : PyStr) : Prop :=
  ∃ pulled, result = .ok (.reply true (.str pulled)) ∧
    payloadField (py "xqueue_body") pulled = payloadField (py "xqueue_body") payload ∧
    payloadField (py "xqueue_files") pulled = payloadField (py "xqueue_files") payload

theorem payloadField_graderPayload (hbody : PyStr.Encodable s.xqueueBody)
    (hurls : PyStr.Encodable s.s3Urls) :
    payloadField (py "xqueue_body") (graderPayload s) = some (.str s.xqueueBody) ∧
      payloadField (py "xqueue_files") (graderPayload s) = some (.str s.s3Urls) := by
  have hloads : Json.loads (graderPayload s) = _ := Json.loads_dumps (plain_graderPayload hbody hurls)
  have hfilesKey : (py "xqueue_files" == py "xqueue_body") = false := by decide
  constructor
  · simp [payloadField, hloads, Json.get?]
  · simp [payloadField, hloads, Json.get?, List.lookup_cons, hfilesKey]

/-- The payload is made of columns that the submit has set. -/
theorem graderPayload_of_origin {c : Submission} (h : s.origin = c.origin) :
    graderPayload s = graderPayload c := by
  have hbody : s.xqueueBody = c.xqueueBody := congrArg Origin.xqueueBody h
  have hurls : s.s3Urls = c.s3Urls := congrArg Origin.s3Urls h
  rw [graderPayload, graderPayload, hbody, hurls]

/-- The bodies always agree, so it is the file map that matters. -/
theorem sameWork_graderPayload_iff (hbody : PyStr.Encodable s.xqueueBody)
    (hurls : PyStr.Encodable s.s3Urls) :
    SameWork (pullReply fetch s) (graderPayload s) ↔ FilesServed fetch s s.s3Urls := by
  have hpushed := payloadField_graderPayload hbody hurls
  rw [← handsOut_pullReply_iff hbody hurls]
  constructor
  · rintro ⟨pulled, hreply, -, hfiles⟩
    exact ⟨pulled, hreply, hfiles.trans hpushed.2⟩
  · rintro ⟨pulled, hreply, hfiles⟩
    refine ⟨pulled, hreply, ?_, hfiles.trans hpushed.2.symm⟩
    rcases pullReply_eq_success_iff.1 hreply with ⟨text, hserved, heq⟩
    cases heq
    have htext := encodable_of_filesServed hurls hserved
    exact (payloadField_pullPayload hbody htext).1.trans hpushed.1.symm

/-- A pull takes the text for a pointer and fetches a file dictionary with the very same text. -/
def FetchesOwnText (fetch : HttpResult) (s : Submission) : Prop :=
  ∃ url text, s.PointsTo url ∧ fetch = .response 200 text ∧ externalFiles text = .ok s.s3Urls

theorem filesServed_own_iff {urls : Json} (hurls : s.decodedUrls = .ok urls) :
    FilesServed fetch s s.s3Urls ↔ ¬ urlMarker <:+: s.s3Urls ∨ FetchesOwnText fetch s := by
  constructor
  · generalize hfiles : s.s3Urls = files
    intro hserved
    cases hserved with
    | inline hmarker _ => exact Or.inl hmarker
    | @fetched url text _ hpoints hfetch hexternal =>
        exact Or.inr ⟨url, text, hpoints, hfetch, hfiles ▸ hexternal⟩
  · rintro (hmarker | ⟨url, text, hpoints, hfetch, hexternal⟩)
    · exact FilesServed.inline hmarker hurls
    · exact FilesServed.fetched hpoints hfetch hexternal

/-- The fetch of a spilled map brings the file dictionary that was stored. -/
def FetchesDictionary (cfg : Config) (header : PyStr) (files : List (PyStr × PyStr))
    (links : List PyStr) (fetch : HttpResult) : Prop :=
  isSpilled files links = true → fetch = .response 200 (dictText cfg header files links)

/-- A pull of a stored row hands out the text of its column exactly if that is the map, which no
pull takes for a pointer. -/
theorem filesServed_own_of_storedMap {header : PyStr} {request : HttpRequest} {links : List PyStr}
    {st' : σ} {text : PyStr}
    (hjson : ∀ st path url, storage.url st path = .ok url → PyStr.Encodable url)
    (hdigest : ∀ seed, PyStr.Encodable (cfg.md5 seed))
    (hmap : StoredMap cfg storage header queueName request.files st links st' text)
    (hstored : s.s3Urls = text) (hfetch : FetchesDictionary cfg header request.files links fetch) :
    FilesServed fetch s s.s3Urls ↔ s.s3Urls = mapText request.files links ∧
      (¬ urlMarker <:+: s.s3Urls ∨ FetchesOwnText fetch s) := by
  have hplain := hmap.plain hjson request.encodable_files request.nodup_files
  cases hmap with
  | inline hshort huploads =>
      rw [filesServed_own_iff (decodedUrls_of_dumps hplain hstored)]
      simp [hstored]
  | @spilled st₁ url hlong huploads hdict =>
      have hkeys : Json.Plain (.obj (keyMap cfg header request.files)) :=
        plain_keyMap request.encodable_files request.nodup_files hdigest
      have hurl : PyStr.Encodable url := encodable_links hjson hdict url (by simp)
      rw [filesServed_own_iff (decodedUrls_of_dumps (plain_pointer hurl) hstored)]
      -- the fetched dictionary has the map, so it has to be the text of the column
      have hmarker : urlMarker <:+: s.s3Urls := hstored ▸ urlMarker_infix_pointerText url
      constructor
      · rintro (hno | ⟨url', text, hpoints, htext, hexternal⟩)
        · exact absurd hmarker hno
        · have hsame := hexternal
          rw [hfetch hlong, HttpResult.response.injEq] at htext
          rw [← htext.2, externalFiles_dictText hplain hkeys, Except.ok.injEq] at hsame
          exact ⟨hsame.symm, Or.inr ⟨url', text, hpoints, by rw [hfetch hlong, htext.2], hexternal⟩⟩
      · rintro ⟨-, h⟩
        exact h

/-- A pull and a push of rows with the columns of a stored row. -/
theorem sameWork_of_origin {header : PyStr} {request : HttpRequest} {links : List PyStr} {st' : σ}
    {c row : Submission}
    (hjson : ∀ st path url, storage.url st path = .ok url → PyStr.Encodable url)
    (hdigest : ∀ seed, PyStr.Encodable (cfg.md5 seed))
    (hmap : StoredMap cfg storage header queueName request.files st links st' row.s3Urls)
    (hbody : PyStr.Encodable row.xqueueBody)
    (hfetch : FetchesDictionary cfg header request.files links fetch)
    (hpulled : c.origin = row.origin) (hpushed : s.origin = row.origin) :
    SameWork (pullReply fetch c) (graderPayload s) ↔ row.s3Urls = mapText request.files links ∧
      (¬ urlMarker <:+: row.s3Urls ∨ FetchesOwnText fetch row) := by
  have hurls : c.s3Urls = row.s3Urls := congrArg Origin.s3Urls hpulled
  have hbodies : c.xqueueBody = row.xqueueBody := congrArg Origin.xqueueBody hpulled
  have hpayload : graderPayload s = graderPayload c := graderPayload_of_origin (hpushed.trans hpulled.symm)
  have hown : FetchesOwnText fetch c ↔ FetchesOwnText fetch row := by
    simp only [FetchesOwnText, Submission.PointsTo, Submission.decodedUrls, hurls]
  have hencodable : PyStr.Encodable c.s3Urls := hurls ▸ hmap.encodable
  have hbody' : PyStr.Encodable c.xqueueBody := hbodies ▸ hbody
  rw [hpayload, sameWork_graderPayload_iff hbody' hencodable,
    filesServed_own_of_storedMap hjson hdigest hmap hurls hfetch, hown, hurls]

/-! ## After a submit -/

/-- A push that posts has selected the row, whose columns it posts. -/
theorem selected_of_pushed {env : PushEnv} {worker : Worker} {t : Table} {post : GraderPost}
    (h : .pushed post ∈ (worker.deliverSubmission cfg env t).outputs) :
    ∃ s, getSingleUnpushedSubmission cfg env.plan env.queryTime worker.queueName t = some s ∧
      post = ⟨s.id, worker.workerUrl, graderPayload s, env.grader⟩ := by
  have hcases := pushed_deliverSubmission cfg env worker t
  generalize worker.deliverSubmission cfg env t = ended at hcases h
  have hpost : ∀ {s : Submission} {os : List Output} {result : Except PyExc Submission},
      worker.work env.toWorkEnv s = (os, result) → .pushed post ∈ os →
        post = ⟨s.id, worker.workerUrl, graderPayload s, env.grader⟩ := by
    intro s os result hwork hmem
    have hpush : (Task.push worker).work cfg env.toWorkEnv s = (os, result) := hwork
    have hemits := emits_of_work hpush hmem
    generalize hout : Output.pushed post = o at hemits
    cases hemits with
    | pushed =>
        cases hout
        rfl
    | delivered => cases hout
  cases hcases with
  | idle => cases h
  | raised hget hwork => exact ⟨_, hget, hpost hwork h⟩
  | saved hget hwork => exact ⟨_, hget, hpost hwork h⟩

theorem pushed_of_selected {env : PushEnv} {worker : Worker} {t : Table}
    (h : getSingleUnpushedSubmission cfg env.plan env.queryTime worker.queueName t = some s) :
    .pushed ⟨s.id, worker.workerUrl, graderPayload s, env.grader⟩ ∈
      (worker.deliverSubmission cfg env t).outputs := by
  have hfirst : .pushed ⟨s.id, worker.workerUrl, graderPayload s, env.grader⟩ ∈
      (worker.work env.toWorkEnv s).1 := by
    unfold Worker.work
    dsimp only
    split <;> simp
  rcases hwork : worker.work env.toWorkEnv s with ⟨os, e | c⟩ <;>
    simpa [Worker.deliverSubmission, h, hwork, Work.finish] using hfirst

/-- For a row that a submit request has inserted, a later pull and a later push of it hand out the
same, exactly if its column holds the map itself and the pull does not take it for a pointer;
`links` are the storage's answers to the uploads. -/
theorem same_work_iff (env : SubmitEnv) (pullEnv : PullEnv) (pushEnv : PushEnv) (worker : Worker)
    {request pullRequest : HttpRequest} {t u v : Table} {row s : Submission} {post : GraderPost}
    (hjson : ∀ st path url, storage.url st path = .ok url → PyStr.Encodable url)
    (hdigest : ∀ seed, PyStr.Encodable (cfg.md5 seed))
    (hsubmit : .inserted request row ∈ (submit cfg storage env request st t).2.outputs)
    (hpull : (atomicSystem cfg).Reachable (submit cfg storage env request st t).2.table u)
    (hchecks : getSubmissionChecks cfg pullRequest = .ok queueName)
    (hget : getSingleUnretiredSubmission cfg pullEnv.plan pullEnv.queryTime queueName u = some s)
    (hid : s.id = row.id)
    (hpush : (atomicSystem cfg).Reachable (submit cfg storage env request st t).2.table v)
    (hpost : .pushed post ∈ (worker.deliverSubmission cfg pushEnv v).outputs)
    (hpostId : post.id = row.id) :
    ∃ links, StoredMap cfg storage row.xqueueHeader row.queueName request.files st links
        (submit cfg storage env request st t).1 row.s3Urls ∧
      (FetchesDictionary cfg row.xqueueHeader request.files links pullEnv.fetch →
        (SameWork (getSubmission cfg pullEnv pullRequest u).result post.payload ↔
          row.s3Urls = mapText request.files links ∧
            (¬ urlMarker <:+: row.s3Urls ∨ FetchesOwnText pullEnv.fetch row))) := by
  rcases storedMap_of_submit hsubmit with ⟨-, hrow, hbody, links, hmap⟩
  refine ⟨links, hmap, fun hfetch => ?_⟩
  rcases selected_of_pushed hpost with ⟨s', hget', rfl⟩
  have hread : s.origin = row.origin :=
    origin_of_later hpull hrow (mem_of_getSingleSubmission hget) hid
  have hpulled : (s.pulled cfg pullRequest pullEnv.pullTime).origin = row.origin := hread
  have hpushed := origin_of_later hpush hrow (mem_of_getSingleSubmission hget') hpostId
  show SameWork _ (graderPayload s') ↔ _
  rw [result_getSubmission hchecks hget]
  exact sameWork_of_origin hjson hdigest hmap hbody hfetch hpulled hpushed

/-- The push of the only row of a table, by a worker of the pull queue. -/
def firstPush (t : Table) : Ended Unit :=
  Worker.deliverSubmission devSettings ⟨⟨clockAt 2, clockAt 2, .timeout, fun _ => .timeout⟩, .insertion,
    clockAt 2⟩ ⟨py "test-pull", py "http://grader"⟩ t

/-- A pull and a push of the row of a job with one ordinary file. -/
theorem same_work_answer :
    ∃ row, .pushed ⟨1, py "http://grader", graderPayload row, .timeout⟩ ∈
        (firstPush (firstSubmit jobWithAnswer).2.table).outputs ∧
      SameWork (firstPull jobWithAnswer .timeout) (graderPayload row) := by
  -- the facts about the job, by evaluation
  have hfacts : isSuccessReply (firstSubmit jobWithAnswer).2.result = true ∧
      (getSingleUnretiredSubmission devSettings .insertion (clockAt 1) (py "test-pull")
        (firstSubmit jobWithAnswer).2.table).isSome = true ∧
      (getSingleUnpushedSubmission devSettings .insertion (clockAt 2) (py "test-pull")
        (firstSubmit jobWithAnswer).2.table).isSome = true ∧
      ∀ r ∈ (firstSubmit jobWithAnswer).2.table.rows, r.id = 1 ∧ ¬ urlMarker <:+: r.s3Urls := by
    decide +kernel
  rcases hfacts with ⟨hsuccess, hselected, hselected', hrows⟩
  have hpull : getSubmissionChecks devSettings (pullRequest (py "test-pull")) =
      .ok (py "test-pull") := rfl
  generalize jobWithAnswer = request at *
  rcases exists_firstRow hsuccess with ⟨row, hrow, hmem⟩
  rcases Option.isSome_iff_exists.1 hselected with ⟨s, hget⟩
  rcases Option.isSome_iff_exists.1 hselected' with ⟨s', hget'⟩
  have hs := hrows s (mem_of_getSingleSubmission hget)
  have hs' := hrows s' (mem_of_getSingleSubmission hget')
  have hrowFacts := hrows row hmem
  have hpost : .pushed ⟨s'.id, py "http://grader", graderPayload s', .timeout⟩ ∈
      (firstPush (firstSubmit request).2.table).outputs := pushed_of_selected hget'
  rcases same_work_iff ⟨clockAt 0, clockAt 0, true⟩ ⟨.insertion, clockAt 1, clockAt 1, .timeout⟩ _ _
    encodable_memoryUrl encodable_digest hrow (Reachable.refl _) hpull hget
    (hs.1.trans hrowFacts.1.symm) (Reachable.refl _) hpost (hs'.1.trans hrowFacts.1.symm)
    with ⟨links, hmap, hiff⟩
  rw [hs'.1] at hpost
  refine ⟨s', hpost, ?_⟩
  -- the map is in its column, without the marker
  generalize row.s3Urls = text at hmap hiff hrowFacts
  cases hmap with
  | inline hshort =>
      have hfetch : FetchesDictionary devSettings row.xqueueHeader request.files links .timeout := by
        intro hlong
        rw [hshort] at hlong
        cases hlong
      exact (hiff hfetch).2 ⟨rfl, Or.inl hrowFacts.2⟩
  | @spilled _ url => exact absurd (urlMarker_infix_pointerText url) hrowFacts.2

/-- The pull hands out the files of the dictionary, and the push the pointer to it. -/
theorem spilled_map_differs :
    ¬ (∀ (request : HttpRequest) (row s s' : Submission) (links : List PyStr) (fetch : HttpResult),
      .inserted request row ∈ (firstSubmit request).2.outputs →
      StoredMap devSettings memoryStorage row.xqueueHeader row.queueName request.files [] links
        (firstSubmit request).1 row.s3Urls →
      FetchesDictionary devSettings row.xqueueHeader request.files links fetch →
      getSingleUnretiredSubmission devSettings .insertion (clockAt 1) (py "test-pull")
        (firstSubmit request).2.table = some s → s.id = row.id →
      .pushed ⟨row.id, py "http://grader", graderPayload s', .timeout⟩ ∈
        (firstPush (firstSubmit request).2.table).outputs →
        SameWork (firstPull request fetch) (graderPayload s')) := by
  intro h
  -- the facts about the job, by evaluation
  have hfacts : isSuccessReply (firstSubmit jobWithLongName).2.result = true ∧
      (getSingleUnretiredSubmission devSettings .insertion (clockAt 1) (py "test-pull")
        (firstSubmit jobWithLongName).2.table).isSome = true ∧
      (getSingleUnpushedSubmission devSettings .insertion (clockAt 2) (py "test-pull")
        (firstSubmit jobWithLongName).2.table).isSome = true ∧
      ∀ r ∈ (firstSubmit jobWithLongName).2.table.rows,
        r.id = 1 ∧ (payloadField longName r.s3Urls).isNone = true := by
    decide +kernel
  rcases hfacts with ⟨hsuccess, hselected, hselected', hrows⟩
  have hfiles : longName ∈ jobWithLongName.files.map Prod.fst := List.mem_singleton_self longName
  have hpull : getSubmissionChecks devSettings (pullRequest (py "test-pull")) =
      .ok (py "test-pull") := rfl
  generalize jobWithLongName = request at *
  rcases exists_firstRow hsuccess with ⟨row, hrow, hmem⟩
  rcases Option.isSome_iff_exists.1 hselected with ⟨s, hget⟩
  rcases Option.isSome_iff_exists.1 hselected' with ⟨s', hget'⟩
  have hs := hrows s (mem_of_getSingleSubmission hget)
  have hs' := hrows s' (mem_of_getSingleSubmission hget')
  have hrowFacts := hrows row hmem
  have hpost : .pushed ⟨s'.id, py "http://grader", graderPayload s', .timeout⟩ ∈
      (firstPush (firstSubmit request).2.table).outputs := pushed_of_selected hget'
  rcases storedMap_of_submit hrow with ⟨-, -, hbody, links, hmap⟩
  rw [hs'.1, ← hrowFacts.1] at hpost
  have hsame := h request row s s' links _ hrow hmap (fun _ => rfl) hget
    (hs.1.trans hrowFacts.1.symm) hpost
  rw [firstPull, result_getSubmission hpull hget] at hsame
  have hread : s.origin = row.origin := congrArg Submission.origin
    (KeyedTable.eq_of_key_eq (mem_of_getSingleSubmission hget) hmem (hs.1.trans hrowFacts.1.symm))
  have hread' : s'.origin = row.origin := congrArg Submission.origin
    (KeyedTable.eq_of_key_eq (mem_of_getSingleSubmission hget') hmem (hs'.1.trans hrowFacts.1.symm))
  have hpulled : (s.pulled devSettings (pullRequest (py "test-pull")) (clockAt 1)).origin = row.origin :=
    hread
  have htext := ((sameWork_of_origin encodable_memoryUrl encodable_digest hmap hbody (fun _ => rfl)
    hpulled hread').1 hsame).1
  -- the map has the uploaded names, and the stored text does not
  have hplain := hmap.plain encodable_memoryUrl request.encodable_files request.nodup_files
  have hsome := isSome_payloadField_mapText hplain hmap.keys hfiles
  have hnone := hrowFacts.2
  rw [htext] at hnone
  simp [Option.isNone_iff_eq_none.1 hnone] at hsome

end Xqueue
