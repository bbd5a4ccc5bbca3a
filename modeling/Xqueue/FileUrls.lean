import Xqueue.GraderFiles

/-!
# FileUrls — where the recorded URLs lead

A submit saves each file under a path made of the header and the file name, and records the URL of
that path, whichever name the storage has chosen.

* `submitSystem` : submit requests, one after another, on one storage and one table;
* `OwnFiles` : the URLs that a row records lead to the files of its own request;
* `own_files_of_run` : they do in every run whose requests fit into the storage (`PathsFit`);
* `resubmission_gets_old_file` : they do not for a second request with the same header.
-/

namespace Xqueue

open Library
open Library.System

variable {σ : Type} {cfg : Config} {storage : Storage σ}

/-- One submit request after another, with the storage that they share. -/
def submitSystem (cfg : Config) (storage : Storage σ) :
    System (σ × Table) (SubmitEnv × HttpRequest) Output where
  step := fun s a =>
    let ended := submit cfg storage a.1 a.2 s.1 s.2
    some ((ended.1, ended.2.table), ended.2.outputs)

variable {contract : StorageContract storage.save storage.url} {st st' : σ} {t : Table}
  {env : SubmitEnv} {request : HttpRequest}

/-! ## A submit loses no file -/

theorem keeps_upload {content path name : PyStr} :
    contract.Keeps st (upload storage st content path name).1 := by
  unfold upload
  dsimp only
  split
  · rename_i st₁ e hsave
    exact fun other d hother => contract.save_error hsave hother
  · rename_i st₁ chosen hsave
    exact StorageContract.keeps_save hsave

theorem keeps_uploadEach {header queueName : PyStr} : ∀ {files : List (PyStr × PyStr)} {st : σ}
    {urls keys : List (PyStr × Json)},
    contract.Keeps st (uploadEach cfg storage header queueName files st urls keys).1 := by
  intro files
  induction files with
  | nil =>
      intro st urls keys
      exact StorageContract.Keeps.refl contract st
  | cons f files ih =>
      intro st urls keys
      rcases f with ⟨filename, content⟩
      unfold uploadEach
      split
      · exact StorageContract.Keeps.refl contract st
      · rename_i key hkey
        have hfirst : contract.Keeps st (upload storage st content queueName key).1 := keeps_upload
        split
        · rename_i st₁ e hup
          rwa [hup] at hfirst
        · rename_i st₁ url hup
          rw [hup] at hfirst
          exact hfirst.trans ih

theorem keeps_uploadFiles {header queueName : PyStr} :
    contract.Keeps st (uploadFiles cfg storage st request header queueName).1 := by
  have heach : contract.Keeps st
      (uploadEach cfg storage header queueName request.files st [] []).1 := keeps_uploadEach
  unfold uploadFiles
  split
  · rename_i st₁ e hup
    rwa [hup] at heach
  · rename_i st₁ urls keys hup
    rw [hup] at heach
    dsimp only
    split
    · split
      · exact heach
      · rename_i key hkey
        -- the file dictionary is one more upload
        have hdict : contract.Keeps st₁ (uploadFileDict storage st₁ urls keys queueName key).1 :=
          keeps_upload
        split
        · rename_i st₂ e hup'
          rw [hup'] at hdict
          exact heach.trans hdict
        · rename_i st₂ url hup'
          rw [hup'] at hdict
          exact heach.trans hdict
    · exact heach

theorem keeps_submit : contract.Keeps st (submit cfg storage env request st t).1 := by
  cases hchecks : submitChecks cfg request with
  | error response =>
      simp only [submit, hchecks]
      exact StorageContract.Keeps.refl contract st
  | ok valid =>
      cases hcallback : storedCallback cfg valid.lmsCallbackUrl with
      | error e =>
          simp only [submit, hchecks, hcallback]
          exact StorageContract.Keeps.refl contract st
      | ok callback =>
          have hfiles : contract.Keeps st
              (uploadFiles cfg storage st request valid.header valid.queueName).1 := keeps_uploadFiles
          simp only [submit, hchecks, hcallback, storeSubmission]
          rcases hup : uploadFiles cfg storage st request valid.header valid.queueName with
            ⟨st₁, e | ⟨urlsJson, keysJson⟩⟩
          · rwa [hup] at hfiles
          · rw [hup] at hfiles
            dsimp only
            split
            · exact hfiles
            · exact hfiles

/-! ## The URLs of a row -/

/-- The URLs that the row records, in `s3_urls` or in the dictionary to which that leads, lead to
the files of the request under their names. -/
def OwnFiles (cfg : Config) (contract : StorageContract storage.save storage.url) (st : σ)
    (request : HttpRequest) (row : Submission) : Prop :=
  ∃ links, RecordsLinks cfg contract row.xqueueHeader request.files links st row.s3Urls ∧
    List.Forall₂ (fun f l => contract.fetched st l = some f.2) request.files links

/-- Every path that the request saves to, when its turn comes, is free or holds what is saved. -/
def PathsFit (cfg : Config) (contract : StorageContract storage.save storage.url) (st : σ)
    (request : HttpRequest) : Prop :=
  ∀ valid links st₁, submitChecks cfg request = .ok valid →
    Uploads storage.save storage.url st (pathFiles cfg valid.header valid.queueName request.files)
      links st₁ →
    contract.Fits st (savedFiles cfg valid.header valid.queueName request.files links)

theorem ownFiles_later {row : Submission} (hkeeps : contract.Keeps st st')
    (h : OwnFiles cfg contract st request row) : OwnFiles cfg contract st' request row := by
  rcases h with ⟨links, hrecords, hfiles⟩
  refine ⟨links, ?_, hfiles.imp fun _ _ hl => hkeeps.fetched hl⟩
  rcases hrecords with hmap | ⟨url, hpointer, hdict⟩
  · exact Or.inl hmap
  · exact Or.inr ⟨url, hpointer, hkeeps.fetched hdict⟩

/-- The row of a request that fits records the URLs of its own files. -/
theorem ownFiles_submit {request' : HttpRequest} {row : Submission}
    (hfit : PathsFit cfg contract st request)
    (h : .inserted request' row ∈ (submit cfg storage env request st t).2.outputs) :
    OwnFiles cfg contract (submit cfg storage env request st t).1 request' row := by
  rcases stored_of_inserted h with ⟨rfl, valid, callback, urlsJson, keysJson, hchecks, hup, hrow, -, -⟩
  rcases storedMap_of_uploadFiles hup with ⟨links, hmap⟩
  rcases hmap.uploads with ⟨st₁, huploads⟩
  have hfits := hfit valid links st₁ hchecks huploads
  rcases hmap.fetched hfits (StorageContract.Keeps.refl contract _) with ⟨hfiles, hrecords⟩
  rw [hrow]
  exact ⟨links, hrecords, hfiles⟩

/-- In every run of submit requests, each of which fits into the storage when it comes, the URLs
of every row lead to the files of its own request, then and ever after. -/
theorem own_files_of_run (contract : StorageContract storage.save storage.url) {st₀ st : σ}
    {t₀ t : Table} {as : List (SubmitEnv × HttpRequest)} {os : List Output}
    (h : Run (submitSystem cfg storage) (fun s a => PathsFit cfg contract s.1 a.2) (st₀, t₀) as os
      (st, t)) :
    ∀ request row, .inserted request row ∈ os → OwnFiles cfg contract st request row := by
  refine h.invariant (I := fun os s => ∀ request row, .inserted request row ∈ os →
    OwnFiles cfg contract s.1 request row) (by simp) ?_
  rintro os ⟨st, t⟩ ⟨env, request⟩ ⟨st', t'⟩ o hown hfit hstep request' row hmem
  simp only [submitSystem, Option.some.injEq, Prod.mk.injEq] at hstep
  rcases hstep with ⟨⟨rfl, rfl⟩, rfl⟩
  rcases List.mem_append.1 hmem with hmem | hmem
  · -- a row of an earlier request
    exact ownFiles_later keeps_submit (hown request' row hmem)
  · exact ownFiles_submit hfit hmem

/-! ## Two requests -/

/-- A second job, a minute after the first one, on what that has left. -/
def secondSubmit (first second : HttpRequest) : List (PyStr × PyStr) × Ended HttpResponse :=
  submit devSettings memoryStorage ⟨clockAt 1, clockAt 1, true⟩ second (firstSubmit first).1
    (firstSubmit first).2.table

theorem run_two {first second : HttpRequest}
    {ok : List (PyStr × PyStr) × Table → SubmitEnv × HttpRequest → Prop}
    (hfirst : ok ([], KeyedTable.empty) (⟨clockAt 0, clockAt 0, true⟩, first))
    (hsecond : ok ((firstSubmit first).1, (firstSubmit first).2.table)
      (⟨clockAt 1, clockAt 1, true⟩, second)) :
    Run (submitSystem devSettings memoryStorage) ok ([], KeyedTable.empty)
      [(⟨clockAt 0, clockAt 0, true⟩, first), (⟨clockAt 1, clockAt 1, true⟩, second)]
      ((firstSubmit first).2.outputs ++ (secondSubmit first second).2.outputs)
      ((secondSubmit first second).1, (secondSubmit first second).2.table) :=
  Run.cons hfirst rfl (Run.single hsecond rfl)

/-- A job for another problem, with another answer. -/
def jobWithOtherHeader : HttpRequest :=
  jobWithFiles (py "/lms/2/problem") [(py "answer.py", py "print(2)")] (by decide) (by decide)

/-- A job for the same problem, with another answer. -/
def jobWithOtherAnswer : HttpRequest :=
  jobWithFiles (py "/lms/1/problem") [(py "answer.py", py "print(2)")] (by decide) (by decide)

/-- A job with one file fits if its path and that of its dictionary are free. -/
theorem pathsFit_single {url : PyStr} {f : PyStr × PyStr} {hnames hnodup}
    {st : List (PyStr × PyStr)} (hurl : PyStr.Encodable url)
    (hfree : st.lookup (uploadPath devSettings (jobHeader url (py "test-pull")) (py "test-pull") f.1) = none)
    (hdict : st.lookup (dictPath devSettings (jobHeader url (py "test-pull")) (py "test-pull") [f]) = none)
    (hne : uploadPath devSettings (jobHeader url (py "test-pull")) (py "test-pull") f.1 ≠
      dictPath devSettings (jobHeader url (py "test-pull")) (py "test-pull") [f]) :
    PathsFit devSettings memoryContract st (jobWithFiles url [f] hnames hnodup) := by
  intro valid links st₁ hchecks _
  rw [submitChecks_jobWithFiles hurl] at hchecks
  cases hchecks
  have hbeq : (dictPath devSettings (jobHeader url (py "test-pull")) (py "test-pull") [f] ==
      uploadPath devSettings (jobHeader url (py "test-pull")) (py "test-pull") f.1) = false := by
    simpa using Ne.symm hne
  have hfiles : (jobWithFiles url [f] hnames hnodup).files = [f] := rfl
  rw [hfiles, savedFiles]
  split
  · simp [pathFiles, StorageContract.Fits, memoryContract, memoryStorage, hfree, hdict,
      List.lookup_cons, hbeq]
  · simp [pathFiles, StorageContract.Fits, memoryContract, hfree]

/-- Two jobs for different problems, whose files have the same name. -/
theorem own_files_two_problems :
    ∃ os st t, Run (submitSystem devSettings memoryStorage)
        (fun s a => PathsFit devSettings memoryContract s.1 a.2) ([], KeyedTable.empty)
        [(⟨clockAt 0, clockAt 0, true⟩, jobWithAnswer), (⟨clockAt 1, clockAt 1, true⟩, jobWithOtherHeader)]
        os (st, t) ∧ t.rows.length = 2 ∧
      ∀ request row, .inserted request row ∈ os → OwnFiles devSettings memoryContract st request row := by
  have hfirst : PathsFit devSettings memoryContract [] jobWithAnswer :=
    pathsFit_single (by decide) rfl rfl (by decide +kernel)
  have hsecond : PathsFit devSettings memoryContract (firstSubmit jobWithAnswer).1 jobWithOtherHeader :=
    pathsFit_single (by decide) (by decide +kernel) (by decide +kernel) (by decide +kernel)
  have hlength : (secondSubmit jobWithAnswer jobWithOtherHeader).2.table.rows.length = 2 := by
    decide +kernel
  generalize jobWithAnswer = first at *
  generalize jobWithOtherHeader = second at *
  have hrun : Run (submitSystem devSettings memoryStorage)
      (fun s a => PathsFit devSettings memoryContract s.1 a.2) _ _ _ _ := run_two hfirst hsecond
  exact ⟨_, _, _, hrun, hlength, own_files_of_run memoryContract hrun⟩

/-- The recorded URL of the answer leads to the content. -/
def leadsTo (st : List (PyStr × PyStr)) (text content : PyStr) : Bool :=
  match payloadField (py "answer.py") text with
  | some (.str url) => st.lookup url == some content
  | _ => false

theorem leadsTo_iff {st : List (PyStr × PyStr)} {text content : PyStr} :
    leadsTo st text content = true ↔
      ∃ url, payloadField (py "answer.py") text = some (.str url) ∧ st.lookup url = some content := by
  unfold leadsTo
  split
  · rename_i url hurl
    simp [hurl]
  · rename_i hno
    simp only [Bool.false_eq_true, false_iff, not_exists, not_and]
    exact fun url hurl => absurd hurl (hno url)

/-- The second answer for a problem is recorded with the URL of the first one. -/
theorem resubmission_gets_old_file :
    ¬ (∀ as os st t, Run (submitSystem devSettings memoryStorage) Free ([], KeyedTable.empty) as os
        (st, t) →
      ∀ request row, .inserted request row ∈ os → OwnFiles devSettings memoryContract st request row) := by
  intro h
  -- the facts about the jobs, by evaluation
  have hfacts : isSuccessReply (secondSubmit jobWithAnswer jobWithOtherAnswer).2.result = true ∧
      (∀ r ∈ (secondSubmit jobWithAnswer jobWithOtherAnswer).2.table.rows,
        leadsTo (secondSubmit jobWithAnswer jobWithOtherAnswer).1 r.s3Urls (py "print(1)") = true) ∧
      ∀ f ∈ (secondSubmit jobWithAnswer jobWithOtherAnswer).1, PyStr.Encodable f.1 := by
    decide +kernel
  rcases hfacts with ⟨hsuccess, hrows, hnames⟩
  have hfiles : jobWithOtherAnswer.files = [(py "answer.py", py "print(2)")] := rfl
  generalize jobWithAnswer = first at *
  generalize jobWithOtherAnswer = second at *
  rcases exists_inserted hsuccess with ⟨row, hrow⟩
  have hmem := (storedMap_of_submit hrow).2.1
  rcases h _ _ _ _ (run_two trivial trivial) second row (List.mem_append_right _ hrow) with
    ⟨links, hrecords, hall⟩
  rcases leadsTo_iff.1 (hrows row hmem) with ⟨url, hurl, hcontent⟩
  rw [hfiles] at hrecords hall
  rcases List.forall₂_cons_left_iff.1 hall with ⟨l, rest, hl, hrest, rfl⟩
  cases hrest
  have hencodable : ∀ {name content : PyStr},
      (secondSubmit first second).1.lookup name = some content → PyStr.Encodable name := by
    intro name content hlookup
    rcases List.lookup_eq_some_iff.1 hlookup with ⟨before, after, heq, -⟩
    exact hnames (name, content) (by simp [heq])
  have hl' : (secondSubmit first second).1.lookup l = some (py "print(2)") := hl
  rcases hrecords with hmap | ⟨pointer, hpointer, hdict⟩
  · -- the map has the only URL
    have hplain : Json.Plain (.obj (urlMap [(py "answer.py", py "print(2)")] [l])) :=
      plain_urlMap (by decide) (by decide) (by simpa using hencodable hl') rfl
    rw [hmap, payloadField, mapText, Json.loads_dumps hplain] at hurl
    have heq : l = url := by simpa [Json.get?, urlMap] using hurl
    rw [← heq, hl'] at hcontent
    exact absurd hcontent (by decide)
  · -- a pointer has no URL under the name
    have hkey : (py "answer.py" == urlMarker) = false := by decide
    rw [hpointer, payloadField, pointerText, Json.loads_dumps (plain_pointer (hencodable hdict))] at hurl
    simp [Json.get?, List.lookup_cons, hkey] at hurl

end Xqueue
