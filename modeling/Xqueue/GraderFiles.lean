import Xqueue.FileMap

/-!
# GraderFiles — the file map that a pull hands out

A pull looks for the text `URL_FOR_EXTERNAL_DICTS` in `s3_urls` to tell a pointer from a map, and
fetches the file dictionary of a pointer.

* `FilesServed` of a stored row, `filesServed_iff` : what the pull makes of either format;
* `MapReadable`, `file_map_survives_iff` : exactly when a pull hands out the map that was uploaded;
* `marker_name_breaks` : it does not for a file of that very name.
-/

namespace Xqueue

open Library
open Library.System

variable {σ : Type} {cfg : Config} {storage : Storage σ} {header queueName : PyStr}
  {files : List (PyStr × PyStr)} {links : List PyStr} {st st' : σ}

/-! ## The map that a pull hands out -/

/-- A field of a JSON payload. -/
def payloadField (name payload : PyStr) : Option Json :=
  (Json.loads payload).bind (Json.get? name)

theorem payloadField_pullPayload {s : Submission} {text : PyStr} (hbody : PyStr.Encodable s.xqueueBody)
    (htext : PyStr.Encodable text) :
    payloadField (py "xqueue_body") (pullPayload s text) = some (.str s.xqueueBody) ∧
      payloadField (py "xqueue_files") (pullPayload s text) = some (.str text) := by
  have hloads : Json.loads (pullPayload s text) = _ := Json.loads_dumps (plain_pullPayload hbody htext)
  have hbodyKey : (py "xqueue_body" == py "xqueue_header") = false := by decide
  have hfilesKey : (py "xqueue_files" == py "xqueue_header") = false := by decide
  have hfilesKey' : (py "xqueue_files" == py "xqueue_body") = false := by decide
  constructor
  · simp [payloadField, hloads, Json.get?, List.lookup_cons, hbodyKey]
  · simp [payloadField, hloads, Json.get?, List.lookup_cons, hfilesKey, hfilesKey']

/-- A map has each name that was uploaded. -/
theorem isSome_payloadField_mapText {name : PyStr} (hplain : Json.Plain (.obj (urlMap files links)))
    (hkeys : (urlMap files links).map Prod.fst = files.map Prod.fst)
    (hname : name ∈ files.map Prod.fst) : (payloadField name (mapText files links)).isSome = true := by
  rw [← hkeys] at hname
  rcases exists_lookup hname with ⟨v, hv⟩
  have hloads : Json.loads (mapText files links) = some (.obj (urlMap files links)) :=
    Json.loads_dumps hplain
  simp [payloadField, hloads, Json.get?, hv]

/-- The reply is a success and its `xqueue_files` is the text. -/
def HandsOut (result : Except PyExc HttpResponse) (text : PyStr) : Prop :=
  ∃ payload, result = .ok (.reply true (.str payload)) ∧
    payloadField (py "xqueue_files") payload = some (.str text)

theorem encodable_of_filesServed {fetch : HttpResult} {s : Submission} {text : PyStr}
    (hs : PyStr.Encodable s.s3Urls) (h : FilesServed fetch s text) : PyStr.Encodable text := by
  cases h with
  | inline => exact hs
  | fetched _ _ hfiles =>
      unfold externalFiles at hfiles
      split at hfiles
      · cases hfiles
      · split at hfiles
        · cases hfiles
        · cases hfiles
          exact Json.encodable_dumps _

theorem handsOut_pullReply_iff {fetch : HttpResult} {s : Submission} {text : PyStr}
    (hbody : PyStr.Encodable s.xqueueBody) (hs : PyStr.Encodable s.s3Urls) :
    HandsOut (pullReply fetch s) text ↔ FilesServed fetch s text := by
  constructor
  · rintro ⟨payload, hreply, hfield⟩
    rcases pullReply_eq_success_iff.1 hreply with ⟨files, hserved, heq⟩
    cases heq
    have hfiles := (payloadField_pullPayload hbody (encodable_of_filesServed hs hserved)).2
    rw [hfiles, Option.some.injEq, Json.str.injEq] at hfield
    exact hfield ▸ hserved
  · intro hserved
    exact ⟨_, pullReply_eq_success_iff.2 ⟨text, hserved, rfl⟩,
      (payloadField_pullPayload hbody (encodable_of_filesServed hs hserved)).2⟩

theorem result_servePull {fetch : HttpResult} {now : DateTime} {c : Submission} {t : Table} :
    (servePull cfg fetch now c t).result = pullReply fetch c := by
  unfold servePull
  split
  · rename_i h
    exact h.symm
  · rename_i h
    split <;> exact h.symm

theorem result_getSubmission {env : PullEnv} {request : HttpRequest} {t : Table} {s : Submission}
    (hchecks : getSubmissionChecks cfg request = .ok queueName)
    (hget : getSingleUnretiredSubmission cfg env.plan env.queryTime queueName t = some s) :
    (getSubmission cfg env request t).result =
      pullReply env.fetch (s.pulled cfg request env.pullTime) := by
  simp only [getSubmission, hchecks, hget, pull_eq_ok, result_servePull]

/-- The pull tells the format of the map apart: it is spilled, or the text does not contain the
marker; or the marker names a file that happens to hold the map in a file dictionary. -/
def MapReadable (files : List (PyStr × PyStr)) (links : List PyStr) : Prop :=
  isSpilled files links = true ∨ ¬ urlMarker <:+: mapText files links ∨
    ∃ content, (urlMarker, content) ∈ files ∧ externalFiles content = .ok (mapText files links)

section Contract

variable {contract : StorageContract storage.save storage.url} {st₂ : σ} {fetch : HttpResult}
  {c : Submission}

/-- The fetch of the URL that a row points to brings what the storage holds there. -/
def FetchesStored (contract : StorageContract storage.save storage.url) (st₂ : σ) (c : Submission)
    (fetch : HttpResult) : Prop :=
  ∀ url text, c.PointsTo (.str url) → contract.fetched st₂ url = some text → fetch = .response 200 text

theorem fetchesStored_of_pointer {url text : PyStr} (hstored : c.s3Urls = pointerText url)
    (hurl : PyStr.Encodable url) (hfetched : contract.fetched st₂ url = some text) :
    FetchesStored contract st₂ c (.response 200 text) := by
  intro url' text' hpoints hfetched'
  cases url_unique hpoints (pointsTo_pointerText hstored hurl)
  rw [hfetched, Option.some.injEq] at hfetched'
  rw [hfetched']

/-- A stored text without a name that was uploaded is no map. -/
theorem isSpilled_of_missing {name text : PyStr}
    (hmap : StoredMap cfg storage header queueName files st links st' text)
    (hplain : Json.Plain (.obj (urlMap files links))) (hname : name ∈ files.map Prod.fst)
    (hnone : payloadField name text = none) : isSpilled files links = true := by
  have hkeys := hmap.keys
  cases hmap with
  | inline =>
      have hsome := isSome_payloadField_mapText hplain hkeys hname
      rw [hnone] at hsome
      cases hsome
  | spilled hlong => exact hlong

/-- A map in its column is handed out, unless the pull takes it for a pointer. -/
theorem filesServed_inline_iff (hstored : c.s3Urls = mapText files links)
    (hplain : Json.Plain (.obj (urlMap files links))) (hnodup : (files.map Prod.fst).Nodup)
    (hfetched : List.Forall₂ (fun f l => contract.fetched st₂ l = some f.2) files links)
    (hfetch : FetchesStored contract st₂ c fetch) :
    FilesServed fetch c (mapText files links) ↔ ¬ urlMarker <:+: mapText files links ∨
      ∃ content, (urlMarker, content) ∈ files ∧ externalFiles content = .ok (mapText files links) := by
  have hurls : c.decodedUrls = .ok (.obj (urlMap files links)) := decodedUrls_of_dumps hplain hstored
  -- what a pull that takes the map for a pointer gets
  have hpoints : ∀ {url : Json}, c.PointsTo url →
      ∃ content, (urlMarker, content) ∈ files ∧ fetch = .response 200 content := by
    rintro url hpoints
    have hurl := hpoints.2
    rw [hurls] at hurl
    rcases hurl with ⟨v, hv, hlookup⟩
    cases hv
    rcases subscript_eq_ok.1 hlookup with ⟨members, hmembers, hmem⟩
    cases hmembers
    rcases lookup_urlMap hfetched hmem with ⟨content, l, hfile, rfl, hcontent⟩
    exact ⟨content, hfile, hfetch l content hpoints hcontent⟩
  constructor
  · intro hserved
    by_cases hmarker : urlMarker <:+: mapText files links
    · right
      generalize htext : mapText files links = text at hserved hmarker
      cases hserved with
      | inline hno => exact absurd (hstored ▸ htext ▸ hmarker) hno
      | fetched hpts hres hfiles =>
          rcases hpoints hpts with ⟨content, hfile, hres'⟩
          rw [hres] at hres'
          cases hres'
          exact ⟨_, hfile, hfiles⟩
    · exact Or.inl hmarker
  · rintro (hmarker | ⟨content, hfile, hfiles⟩)
    · rw [← hstored] at hmarker ⊢
      exact FilesServed.inline hmarker hurls
    · by_cases hmarker : urlMarker <:+: mapText files links
      · -- the marker is a key, with the URL of the file
        have hkey : urlMarker ∈ (urlMap files links).map Prod.fst := by
          rw [keys_urlMap hfetched.length_eq.symm]
          exact List.mem_map_of_mem hfile
        rcases exists_lookup hkey with ⟨url, hurl⟩
        have hpts : c.PointsTo url :=
          ⟨hstored ▸ hmarker, _, hurls, by simp [subscript, hurl]⟩
        rcases hpoints hpts with ⟨content', hfile', hres⟩
        have hsame : content' = content := by
          have := List.inj_on_of_nodup_map hnodup hfile' hfile rfl
          exact congrArg Prod.snd this
        exact FilesServed.fetched hpts (hsame ▸ hres) hfiles
      · rw [← hstored] at hmarker ⊢
        exact FilesServed.inline hmarker hurls

/-- A spilled map is handed out. -/
theorem filesServed_spilled {url : PyStr} (hstored : c.s3Urls = pointerText url)
    (hurl : PyStr.Encodable url) (hplain : Json.Plain (.obj (urlMap files links)))
    (hkeys : Json.Plain (.obj (keyMap cfg header files)))
    (hdict : contract.fetched st₂ url = some (dictText cfg header files links))
    (hfetch : FetchesStored contract st₂ c fetch) :
    FilesServed fetch c (mapText files links) := by
  have hpoints : c.PointsTo (.str url) := pointsTo_pointerText hstored hurl
  exact FilesServed.fetched hpoints (hfetch url _ hpoints hdict) (externalFiles_dictText hplain hkeys)

/-- A pull of a stored row hands out the map that was uploaded, exactly if the map is readable. -/
theorem filesServed_iff {request : HttpRequest} {text : PyStr}
    (hjson : ∀ st path url, storage.url st path = .ok url → PyStr.Encodable url)
    (hdigest : ∀ seed, PyStr.Encodable (cfg.md5 seed))
    (hmap : StoredMap cfg storage header queueName request.files st links st' text)
    (hstored : c.s3Urls = text)
    (hfree : FreePaths contract st (usedPaths cfg header queueName request.files links))
    (hkeeps : contract.Keeps st' st₂) (hfetch : FetchesStored contract st₂ c fetch) :
    FilesServed fetch c (mapText request.files links) ↔ MapReadable request.files links := by
  have hnodup := request.nodup_files
  have hplain := hmap.plain hjson request.encodable_files hnodup
  have hfits := hmap.fits hfree
  have hfetched := hmap.fetched hfits hkeeps
  cases hmap with
  | inline hshort huploads =>
      rw [filesServed_inline_iff hstored hplain hnodup hfetched.1 hfetch]
      simp [MapReadable, hshort]
  | @spilled st₁ url hlong huploads hdict =>
      have hkeys : Json.Plain (.obj (keyMap cfg header request.files)) :=
        plain_keyMap request.encodable_files hnodup hdigest
      rw [savedFiles, hlong, if_pos rfl] at hfits
      have hurl := (huploads.fetched_last hdict hfits hkeeps).2
      have hserved := filesServed_spilled hstored (encodable_links hjson hdict url (by simp)) hplain hkeys
        hurl hfetch
      simp [MapReadable, hlong, hserved]

end Contract

/-- After a submit and anything else, a pull that is served the row replies with the map that was
uploaded, exactly if the map is readable; `links` are the storage's answers to the uploads. -/
theorem file_map_survives_iff (contract : StorageContract storage.save storage.url)
    (env : SubmitEnv) (pullEnv : PullEnv) {request pullRequest : HttpRequest} {t u : Table}
    {row s : Submission} {st₂ : σ}
    (hjson : ∀ st path url, storage.url st path = .ok url → PyStr.Encodable url)
    (hdigest : ∀ seed, PyStr.Encodable (cfg.md5 seed))
    (hsubmit : .inserted request row ∈ (submit cfg storage env request st t).2.outputs)
    (hlater : (atomicSystem cfg).Reachable (submit cfg storage env request st t).2.table u)
    (hkeeps : contract.Keeps (submit cfg storage env request st t).1 st₂)
    (hchecks : getSubmissionChecks cfg pullRequest = .ok queueName)
    (hget : getSingleUnretiredSubmission cfg pullEnv.plan pullEnv.queryTime queueName u = some s)
    (hid : s.id = row.id) (hfetch : FetchesStored contract st₂ s pullEnv.fetch) :
    ∃ links, StoredMap cfg storage row.xqueueHeader row.queueName request.files st links
        (submit cfg storage env request st t).1 row.s3Urls ∧
      (FreePaths contract st (usedPaths cfg row.xqueueHeader row.queueName request.files links) →
        (HandsOut (getSubmission cfg pullEnv pullRequest u).result (mapText request.files links) ↔
          MapReadable request.files links)) := by
  rcases storedMap_of_submit hsubmit with ⟨-, hrow, hbody, links, hmap⟩
  refine ⟨links, hmap, fun hfree => ?_⟩
  have horigin := origin_of_later hlater hrow (mem_of_getSingleSubmission hget) hid
  have hurls : s.s3Urls = row.s3Urls := congrArg Origin.s3Urls horigin
  have hbodies : s.xqueueBody = row.xqueueBody := congrArg Origin.xqueueBody horigin
  have hencodable : PyStr.Encodable s.s3Urls := hurls ▸ hmap.encodable
  have hbody' : PyStr.Encodable s.xqueueBody := hbodies ▸ hbody
  rw [result_getSubmission hchecks hget]
  exact (handsOut_pullReply_iff (s := s.pulled cfg pullRequest pullEnv.pullTime) hbody' hencodable).trans
    (filesServed_iff hjson hdigest hmap hurls hfree hkeeps hfetch)

/-- A job with one file. -/
def jobWithAnswer : HttpRequest :=
  jobWithFiles (py "/lms/1/problem") [(py "answer.py", py "print(1)")] (by decide) (by decide)

/-- A job with one file, under the name that a pull looks for. -/
def jobWithMarker : HttpRequest :=
  jobWithFiles (py "/lms/1/problem") [(urlMarker, py "print(1)")] (by decide) (by decide)

/-- A job on an empty storage and an empty table. -/
def firstSubmit (request : HttpRequest) : List (PyStr × PyStr) × Ended HttpResponse :=
  submit devSettings memoryStorage ⟨clockAt 0, clockAt 0, true⟩ request [] KeyedTable.empty

/-- A pull of the only row, and how the fetch of its file map ends. -/
def firstPull (request : HttpRequest) (fetch : HttpResult) : Except PyExc HttpResponse :=
  (getSubmission devSettings ⟨.insertion, clockAt 1, clockAt 1, fetch⟩ (pullRequest (py "test-pull"))
    (firstSubmit request).2.table).result

theorem exists_firstRow {request : HttpRequest}
    (h : isSuccessReply (firstSubmit request).2.result = true) :
    ∃ row, .inserted request row ∈ (firstSubmit request).2.outputs ∧
      row ∈ (firstSubmit request).2.table.rows := by
  rcases exists_inserted h with ⟨row, hrow⟩
  exact ⟨row, hrow, (storedMap_of_submit hrow).2.1⟩

/-- The URL of the file dictionary for the job with a long name. -/
def longNameDictionary : PyStr :=
  dictPath devSettings (jobHeader (py "/lms/1/problem") (py "test-pull")) (py "test-pull")
    [(longName, py "print(1)")]

/-- The map of a single ordinary file is handed out, and so is a map that is stored as a file
dictionary, when the fetch brings the dictionary. -/
theorem file_map_survives_answers :
    (∃ links, HandsOut (firstPull jobWithAnswer .timeout) (mapText jobWithAnswer.files links)) ∧
      ∃ url dictionary links, (firstSubmit jobWithLongName).1.lookup url = some dictionary ∧
        isSpilled jobWithLongName.files links = true ∧
        HandsOut (firstPull jobWithLongName (.response 200 dictionary))
          (mapText jobWithLongName.files links) := by
  have hpull : getSubmissionChecks devSettings (pullRequest (py "test-pull")) =
      .ok (py "test-pull") := rfl
  have hsurvives : ∀ (request : HttpRequest) (fetch : HttpResult) (f : PyStr × PyStr),
      request.files = [f] → isSuccessReply (firstSubmit request).2.result = true →
      (getSingleUnretiredSubmission devSettings .insertion (clockAt 1) (py "test-pull")
        (firstSubmit request).2.table).isSome = true →
      (∀ r ∈ (firstSubmit request).2.table.rows, r.id = 1 ∧
        uploadPath devSettings r.xqueueHeader r.queueName f.1 ≠
          dictPath devSettings r.xqueueHeader r.queueName [f]) →
      (∀ r ∈ (firstSubmit request).2.table.rows,
        FetchesStored memoryContract (firstSubmit request).1 r fetch) →
      ∃ row links, row ∈ (firstSubmit request).2.table.rows ∧
        StoredMap devSettings memoryStorage row.xqueueHeader row.queueName request.files [] links
          (firstSubmit request).1 row.s3Urls ∧
        (MapReadable request.files links →
          HandsOut (firstPull request fetch) (mapText request.files links)) := by
    intro request fetch f hfiles hsuccess hselected hrows hfetch
    rcases exists_firstRow hsuccess with ⟨row, hrow, hmem⟩
    rcases Option.isSome_iff_exists.1 hselected with ⟨s, hget⟩
    have hs := mem_of_getSingleSubmission hget
    have hid := (hrows s hs).1.trans (hrows row hmem).1.symm
    rcases file_map_survives_iff memoryContract ⟨clockAt 0, clockAt 0, true⟩
      ⟨.insertion, clockAt 1, clockAt 1, fetch⟩ encodable_memoryUrl encodable_digest hrow
      (Reachable.refl _) (StorageContract.Keeps.refl _ _) hpull hget hid (hfetch s hs)
      with ⟨links, hmap, hiff⟩
    have hfree : FreePaths memoryContract []
        (usedPaths devSettings row.xqueueHeader row.queueName [f] links) :=
      freePaths_single (hrows row hmem).2
    rw [← hfiles] at hfree
    exact ⟨row, links, hmem, hmap, (hiff hfree).2⟩
  constructor
  · -- the facts about the job, by evaluation
    have hfacts : isSuccessReply (firstSubmit jobWithAnswer).2.result = true ∧
        (getSingleUnretiredSubmission devSettings .insertion (clockAt 1) (py "test-pull")
          (firstSubmit jobWithAnswer).2.table).isSome = true ∧
        (∀ r ∈ (firstSubmit jobWithAnswer).2.table.rows, r.id = 1 ∧
          uploadPath devSettings r.xqueueHeader r.queueName (py "answer.py") ≠
            dictPath devSettings r.xqueueHeader r.queueName [(py "answer.py", py "print(1)")]) ∧
        ∀ r ∈ (firstSubmit jobWithAnswer).2.table.rows, ¬ urlMarker <:+: r.s3Urls := by
      decide +kernel
    rcases hfacts with ⟨hsuccess, hselected, hrows, hmarker⟩
    have hfiles : jobWithAnswer.files = [(py "answer.py", py "print(1)")] := rfl
    generalize jobWithAnswer = request at *
    rcases hsurvives request .timeout _ hfiles hsuccess hselected hrows
      (fun r hr url text hpoints => absurd hpoints.1 (hmarker r hr)) with ⟨row, links, hmem, hmap, hreadable⟩
    have hno := hmarker row hmem
    refine ⟨links, hreadable ?_⟩
    -- the stored text is the map, without the marker
    generalize row.s3Urls = text at hmap hno
    cases hmap with
    | inline => exact Or.inr (Or.inl hno)
    | spilled hlong => exact Or.inl hlong
  · -- the facts about the job, by evaluation
    have hfacts : isSuccessReply (firstSubmit jobWithLongName).2.result = true ∧
        (getSingleUnretiredSubmission devSettings .insertion (clockAt 1) (py "test-pull")
          (firstSubmit jobWithLongName).2.table).isSome = true ∧
        (∀ r ∈ (firstSubmit jobWithLongName).2.table.rows, r.id = 1 ∧
          uploadPath devSettings r.xqueueHeader r.queueName longName ≠
            dictPath devSettings r.xqueueHeader r.queueName [(longName, py "print(1)")]) ∧
        ((firstSubmit jobWithLongName).1.lookup longNameDictionary).isSome = true ∧
        (∀ r ∈ (firstSubmit jobWithLongName).2.table.rows, r.s3Urls = pointerText longNameDictionary) ∧
        PyStr.Encodable longNameDictionary ∧
        payloadField longName (pointerText longNameDictionary) = none := by
      decide +kernel
    rcases hfacts with ⟨hsuccess, hselected, hrows, hstored, hpointer, hurl, hnone⟩
    have hfiles : jobWithLongName.files = [(longName, py "print(1)")] := rfl
    generalize jobWithLongName = request at *
    generalize longNameDictionary = path at *
    rcases Option.isSome_iff_exists.1 hstored with ⟨dictionary, hdictionary⟩
    rcases hsurvives request (.response 200 dictionary) _ hfiles hsuccess hselected hrows
      (fun r hr => fetchesStored_of_pointer (hpointer r hr) hurl hdictionary) with
      ⟨row, links, hmem, hmap, hreadable⟩
    have hname : longName ∈ request.files.map Prod.fst := by simp [hfiles]
    have hplain := hmap.plain encodable_memoryUrl request.encodable_files request.nodup_files
    have hspilled : isSpilled request.files links = true := by
      refine isSpilled_of_missing hmap hplain hname ?_
      rw [hpointer row hmem]
      exact hnone
    exact ⟨path, dictionary, links, hdictionary, hspilled, hreadable (Or.inl hspilled)⟩

/-- A file under the name that a pull looks for is fetched as if it were a file dictionary, and the
pull raises an exception. -/
theorem marker_name_breaks :
    ¬ (∀ (request : HttpRequest) (row : Submission) (links : List PyStr) (fetch : HttpResult),
      .inserted request row ∈ (firstSubmit request).2.outputs →
      StoredMap devSettings memoryStorage row.xqueueHeader row.queueName request.files [] links
        (firstSubmit request).1 row.s3Urls →
      FreePaths memoryContract [] (usedPaths devSettings row.xqueueHeader row.queueName request.files links) →
      FetchesStored memoryContract (firstSubmit request).1 row fetch →
        HandsOut (firstPull request fetch) (mapText request.files links)) := by
  intro h
  -- the facts about the job, by evaluation
  have hfacts : isSuccessReply (firstSubmit jobWithMarker).2.result = true ∧
      (∀ f ∈ (firstSubmit jobWithMarker).1, f.2 = py "print(1)") ∧
      isSuccessReply (firstPull jobWithMarker (.response 200 (py "print(1)"))) = false ∧
      ∀ r ∈ (firstSubmit jobWithMarker).2.table.rows,
        uploadPath devSettings r.xqueueHeader r.queueName urlMarker ≠
          dictPath devSettings r.xqueueHeader r.queueName [(urlMarker, py "print(1)")] := by
    decide +kernel
  rcases hfacts with ⟨hsuccess, hcontents, hfails, hrows⟩
  have hfiles : jobWithMarker.files = [(urlMarker, py "print(1)")] := rfl
  generalize jobWithMarker = request at *
  rcases exists_firstRow hsuccess with ⟨row, hrow, hmem⟩
  rcases storedMap_of_submit hrow with ⟨-, -, -, links, hmap⟩
  have hstored : FetchesStored memoryContract (firstSubmit request).1 row
      (.response 200 (py "print(1)")) := by
    intro url text _ hfetched
    have hlookup : (firstSubmit request).1.lookup url = some text := hfetched
    rcases List.lookup_eq_some_iff.1 hlookup with ⟨before, after, heq, -⟩
    have htext : text = py "print(1)" := hcontents (url, text) (by simp [heq])
    rw [htext]
  have hfree : FreePaths memoryContract []
      (usedPaths devSettings row.xqueueHeader row.queueName [(urlMarker, py "print(1)")] links) :=
    freePaths_single (hrows row hmem)
  rw [← hfiles] at hfree
  rcases h request row links _ hrow hmap hfree hstored with ⟨payload, hreply, -⟩
  rw [hreply] at hfails
  cases hfails

end Xqueue
