import Mathlib.Algebra.Order.BigOperators.Group.List
import Mathlib.Algebra.Order.Group.Nat
import Xqueue.Deployment
import Xqueue.Operations
import Xqueue.Library.FileStore

/-!
# FileMap — the file map that a submit stores

A submit request stores the map from uploaded names to URLs as JSON in `s3_urls`, or, when the
text is too long, in a file of its own, to which `s3_urls` then points.

* `StoredMap`, `storedMap_of_submit` : the two formats, in terms of the storage's answers;
* `plain_urlMap`, `externalFiles_dictText`, `pointsTo_pointerText` : what each format decodes to;
* `FreePaths`, `StoredMap.fetched` : each uploaded file is at its URL if its path was free;
* `memoryStorage`, `memoryContract` : a storage that keeps the contract.
-/

namespace Xqueue

open Library
open Library.System

variable {σ : Type} {cfg : Config} {storage : Storage σ} {header queueName : PyStr}
  {files : List (PyStr × PyStr)} {links : List PyStr} {st st' : σ}

/-! ## What a submit stores -/

/-- Where the upload for the seed is saved. -/
def uploadPath (cfg : Config) (header queueName seed : PyStr) : PyStr :=
  pathJoin queueName (cfg.md5 (header ++ seed))

/-- The uploaded files under their paths. -/
def pathFiles (cfg : Config) (header queueName : PyStr) (files : List (PyStr × PyStr)) :
    List (PyStr × PyStr) :=
  files.map (fun f => (uploadPath cfg header queueName f.1, f.2))

/-- The map from each uploaded name to the URL that the storage has given for it. -/
def urlMap (files : List (PyStr × PyStr)) (links : List PyStr) : List (PyStr × Json) :=
  (files.map Prod.fst).zip (links.map Json.str)

def keyMap (cfg : Config) (header : PyStr) (files : List (PyStr × PyStr)) : List (PyStr × Json) :=
  files.map (fun f => (f.1, .str (cfg.md5 (header ++ f.1))))

/-- `json.dumps(urls)` -/
def mapText (files : List (PyStr × PyStr)) (links : List PyStr) : PyStr :=
  Json.dumps (.obj (urlMap files links))

/-- The map does not go into its column. -/
def isSpilled (files : List (PyStr × PyStr)) (links : List PyStr) : Bool :=
  charfieldLenLarge < (mapText files links).length

/-- The path of the file dictionary, from the names of the files. -/
def dictPath (cfg : Config) (header queueName : PyStr) (files : List (PyStr × PyStr)) : PyStr :=
  uploadPath cfg header queueName (Json.dumps (.arr (files.map (fun f => Json.str f.1))))

/-- The file dictionary that is stored in place of the map. -/
def dictText (cfg : Config) (header : PyStr) (files : List (PyStr × PyStr)) (links : List PyStr) :
    PyStr :=
  Json.dumps (.obj [(py "files", .obj (urlMap files links)), (py "keys", .obj (keyMap cfg header files))])

/-- The text that points to a file dictionary. -/
def pointerText (url : PyStr) : PyStr :=
  Json.dumps (.obj [(urlMarker, .str url)])

/-- The two formats of `s3_urls`. -/
inductive StoredMap (cfg : Config) (storage : Storage σ) (header queueName : PyStr)
    (files : List (PyStr × PyStr)) (st : σ) (links : List PyStr) (st' : σ) : PyStr → Prop
  | inline : isSpilled files links = false →
      Uploads storage.save storage.url st (pathFiles cfg header queueName files) links st' →
        StoredMap cfg storage header queueName files st links st' (mapText files links)
  | spilled {st₁ : σ} {url : PyStr} : isSpilled files links = true →
      Uploads storage.save storage.url st (pathFiles cfg header queueName files) links st₁ →
      Uploads storage.save storage.url st₁
        [(dictPath cfg header queueName files, dictText cfg header files links)] [url] st' →
        StoredMap cfg storage header queueName files st links st' (pointerText url)

/-- An upload is a save, and a URL for the path. -/
theorem upload_eq_ok {content path name url : PyStr}
    (h : upload storage st content path name = (st', .ok url)) :
    Uploads storage.save storage.url st [(pathJoin path name, content)] [url] st' := by
  unfold upload at h
  dsimp only at h
  split at h
  · cases h
  · rename_i st₁ chosen hsave
    rcases Prod.mk.inj h with ⟨rfl, hurl⟩
    exact Uploads.cons hsave hurl (Uploads.nil _)

/-- The loop over the files builds the map in the order of the files. -/
theorem uploads_of_uploadEach : ∀ {files : List (PyStr × PyStr)} {st st' : σ}
    {urls keys urls' keys' : List (PyStr × Json)},
    (urls.map Prod.fst ++ files.map Prod.fst).Nodup → keys.map Prod.fst = urls.map Prod.fst →
    uploadEach cfg storage header queueName files st urls keys = (st', .ok (urls', keys')) →
      ∃ links, Uploads storage.save storage.url st (pathFiles cfg header queueName files) links st' ∧
        urls' = urls ++ urlMap files links ∧ keys' = keys ++ keyMap cfg header files := by
  intro files
  induction files with
  | nil =>
      intro st st' urls keys urls' keys' _ _ h
      cases h
      exact ⟨[], Uploads.nil st, by simp [urlMap], by simp [keyMap]⟩
  | cons f files ih =>
      intro st st' urls keys urls' keys' hnodup hkeys h
      rcases f with ⟨filename, content⟩
      simp only [uploadEach] at h
      split at h
      · cases h
      · rename_i key hkey
        have hmd5 := eq_md5_of_makeHashkey hkey
        split at h
        · cases h
        · rename_i st₁ url hup
          -- the name is new, so it goes to the end of both dictionaries
          have hnew : filename ∉ urls.map Prod.fst := by
            rw [List.map_cons, List.nodup_append] at hnodup
            exact fun hmem => hnodup.2.2 filename hmem filename (by simp) rfl
          rw [Json.setItem_of_notMem hnew, Json.setItem_of_notMem (hkeys ▸ hnew)] at h
          have hnodup' : ((urls ++ [(filename, Json.str url)]).map Prod.fst ++
              files.map Prod.fst).Nodup := by
            simpa using hnodup
          have hkeys' : (keys ++ [(filename, Json.str key)]).map Prod.fst =
              (urls ++ [(filename, Json.str url)]).map Prod.fst := by
            simp [hkeys]
          rcases ih hnodup' hkeys' h with ⟨links, huploads, rfl, rfl⟩
          have hfirst := upload_eq_ok hup
          rw [hmd5] at hfirst
          refine ⟨url :: links, hfirst.append huploads, ?_, ?_⟩
          · simp [urlMap]
          · simp [keyMap, hmd5]

theorem storedMap_of_uploadFiles {request : HttpRequest} {urlsJson keysJson : PyStr}
    (h : uploadFiles cfg storage st request header queueName = (st', .ok (urlsJson, keysJson))) :
    ∃ links, StoredMap cfg storage header queueName request.files st links st' urlsJson := by
  simp only [uploadFiles] at h
  split at h
  · cases h
  · rename_i st₁ urls keys heach
    rcases uploads_of_uploadEach (by simpa using request.nodup_files) rfl heach with
      ⟨links, huploads, rfl, rfl⟩
    refine ⟨links, ?_⟩
    simp only [List.nil_append] at h
    split at h
    · rename_i hlong
      split at h
      · cases h
      · rename_i key hkey
        split at h
        · cases h
        · rename_i st₂ url hdict
          cases h
          rw [eq_md5_of_makeHashkey hkey] at hdict
          exact StoredMap.spilled (decide_eq_true hlong) huploads (upload_eq_ok hdict)
    · rename_i hshort
      cases h
      exact StoredMap.inline (decide_eq_false hshort) huploads

/-- The row that a submit request has inserted, with the format of its file map. -/
theorem storedMap_of_submit {env : SubmitEnv} {request request' : HttpRequest} {t : Table}
    {row : Submission}
    (h : .inserted request' row ∈ (submit cfg storage env request st t).2.outputs) :
    request' = request ∧ row ∈ (submit cfg storage env request st t).2.table ∧
      PyStr.Encodable row.xqueueBody ∧
      ∃ links, StoredMap cfg storage row.xqueueHeader row.queueName request.files st links
        (submit cfg storage env request st t).1 row.s3Urls := by
  rcases stored_of_inserted h with ⟨rfl, valid, callback, urlsJson, keysJson, hchecks, hup, hrow, hmem, -⟩
  rcases submitChecks_eq_ok.1 hchecks with ⟨-, -, hvalid, -⟩
  rcases isValidRequest_eq_some hvalid with ⟨-, hbody, -⟩
  rcases storedMap_of_uploadFiles hup with ⟨links, hstored⟩
  rw [hrow] at hmem ⊢
  exact ⟨rfl, hmem, HttpRequest.encodable_of_post hbody, links, hstored⟩

theorem StoredMap.encodable {text : PyStr}
    (h : StoredMap cfg storage header queueName files st links st' text) : PyStr.Encodable text := by
  cases h with
  | inline => exact Json.encodable_dumps _
  | spilled => exact Json.encodable_dumps _

/-- The row under the same id at any later time has the columns of the submit. -/
theorem origin_of_later {t u : Table} {row s : Submission} (h : (atomicSystem cfg).Reachable t u)
    (hrow : row ∈ t) (hs : s ∈ u) (hid : s.id = row.id) : s.origin = row.origin := by
  rcases origin_of_reachable h row hrow with ⟨s', hs', hid', horigin⟩
  rwa [KeyedTable.eq_of_key_eq hs hs' (hid.trans hid'.symm)]

/-! ## What a pull makes of it -/

theorem dumps_ne_nil {v : Json} (h : Json.Plain v) : Json.dumps v ≠ [] := by
  rcases Json.starts_dumps h with ⟨c, cs, heq, -⟩
  simp [heq]

theorem decodedUrls_of_dumps {v : Json} {s : Submission} (h : Json.Plain v)
    (hs : s.s3Urls = Json.dumps v) : s.decodedUrls = .ok v := by
  simp [Submission.decodedUrls, hs, dumps_ne_nil h, jsonLoads, Json.loads_dumps h]

theorem plain_pointer {url : PyStr} (h : PyStr.Encodable url) :
    Json.Plain (.obj [(urlMarker, .str url)]) :=
  Json.Plain.obj_of_keys [urlMarker] rfl (by decide) (by decide) (by simpa using Json.Plain.str h)

/-- A pointer contains the text that a pull looks for. -/
theorem urlMarker_infix_pointerText (url : PyStr) : urlMarker <:+: pointerText url := by
  have hkey : Json.dumpsStr urlMarker = [ch '"'] ++ urlMarker ++ [ch '"'] := by decide
  refine ⟨ch '\x7b' :: [ch '"'], [ch '"'] ++ py ": " ++ Json.dumps (.str url) ++ [ch '\x7d'], ?_⟩
  simp [pointerText, Json.dumps, Json.dumpsMember, Json.dumpsMembers, hkey]

theorem pointsTo_pointerText {s : Submission} {url : PyStr} (hs : s.s3Urls = pointerText url)
    (hurl : PyStr.Encodable url) : s.PointsTo (.str url) := by
  refine ⟨?_, _, decodedUrls_of_dumps (plain_pointer hurl) hs, ?_⟩
  · rw [hs]
    exact urlMarker_infix_pointerText url
  · simp [subscript]

/-- A row points to one URL. -/
theorem url_unique {s : Submission} {url url' : Json} (h : s.PointsTo url) (h' : s.PointsTo url') :
    url = url' := by
  rcases h with ⟨-, urls, hurls, hurl⟩
  rcases h' with ⟨-, urls', hurls', hurl'⟩
  rw [hurls] at hurls'
  cases hurls'
  rw [hurl] at hurl'
  exact Except.ok.inj hurl'

theorem keys_urlMap (hlen : links.length = files.length) :
    (urlMap files links).map Prod.fst = files.map Prod.fst := by
  rw [urlMap, List.map_fst_zip (by simp [hlen])]

theorem plain_urlMap (hnames : ∀ f ∈ files, PyStr.Encodable f.1) (hnodup : (files.map Prod.fst).Nodup)
    (hlinks : ∀ l ∈ links, PyStr.Encodable l) (hlen : links.length = files.length) :
    Json.Plain (.obj (urlMap files links)) := by
  have hkeys := keys_urlMap hlen
  refine Json.Plain.obj (by rwa [hkeys]) ?_ ?_
  · intro m hm
    have hname : m.1 ∈ files.map Prod.fst := hkeys ▸ List.mem_map_of_mem hm
    rcases List.mem_map.1 hname with ⟨f, hf, heq⟩
    exact heq ▸ hnames f hf
  · intro m hm
    rcases List.mem_map.1 (List.of_mem_zip hm).2 with ⟨l, hl, heq⟩
    rw [← heq]
    exact Json.Plain.str (hlinks l hl)

/-- The URLs of the uploads are text that can be encoded, if the storage's URLs are. -/
theorem encodable_links {uploads : List (PyStr × PyStr)}
    (hjson : ∀ st path url, storage.url st path = .ok url → PyStr.Encodable url)
    (h : Uploads storage.save storage.url st uploads links st') : ∀ l ∈ links, PyStr.Encodable l := by
  intro l hl
  rcases h.link_of_mem hl with ⟨st₁, path, hurl⟩
  exact hjson st₁ path l hurl

theorem StoredMap.uploads {text : PyStr}
    (h : StoredMap cfg storage header queueName files st links st' text) :
    ∃ st₁, Uploads storage.save storage.url st (pathFiles cfg header queueName files) links st₁ := by
  cases h with
  | inline _ huploads => exact ⟨_, huploads⟩
  | spilled _ huploads _ => exact ⟨_, huploads⟩

theorem StoredMap.keys {text : PyStr}
    (h : StoredMap cfg storage header queueName files st links st' text) :
    (urlMap files links).map Prod.fst = files.map Prod.fst := by
  rcases h.uploads with ⟨st₁, huploads⟩
  exact keys_urlMap (by simpa [pathFiles] using huploads.length_eq)

theorem StoredMap.plain {text : PyStr}
    (h : StoredMap cfg storage header queueName files st links st' text)
    (hjson : ∀ st path url, storage.url st path = .ok url → PyStr.Encodable url)
    (hnames : ∀ f ∈ files, PyStr.Encodable f.1) (hnodup : (files.map Prod.fst).Nodup) :
    Json.Plain (.obj (urlMap files links)) := by
  rcases h.uploads with ⟨st₁, huploads⟩
  exact plain_urlMap hnames hnodup (encodable_links hjson huploads)
    (by simpa [pathFiles] using huploads.length_eq)

theorem plain_keyMap (hnames : ∀ f ∈ files, PyStr.Encodable f.1) (hnodup : (files.map Prod.fst).Nodup)
    (hdigest : ∀ seed, PyStr.Encodable (cfg.md5 seed)) :
    Json.Plain (.obj (keyMap cfg header files)) := by
  have hkeys : (keyMap cfg header files).map Prod.fst = files.map Prod.fst := by
    simp [keyMap, Function.comp_def]
  refine Json.Plain.obj (by rwa [hkeys]) ?_ ?_
  · intro m hm
    rcases List.mem_map.1 hm with ⟨f, hf, rfl⟩
    exact hnames f hf
  · intro m hm
    rcases List.mem_map.1 hm with ⟨f, -, rfl⟩
    exact Json.Plain.str (hdigest _)

/-- The files of a file dictionary dump to the text of the map. -/
theorem externalFiles_dictText (hmap : Json.Plain (.obj (urlMap files links)))
    (hkeys : Json.Plain (.obj (keyMap cfg header files))) :
    externalFiles (dictText cfg header files links) = .ok (mapText files links) := by
  have hplain : Json.Plain (.obj [(py "files", .obj (urlMap files links)),
      (py "keys", .obj (keyMap cfg header files))]) := by
    refine Json.Plain.obj_of_keys [py "files", py "keys"] rfl (by decide) (by decide) ?_
    intro m hm
    simp only [List.mem_cons, List.not_mem_nil, or_false] at hm
    rcases hm with rfl | rfl
    · exact hmap
    · exact hkeys
  simp [externalFiles, dictText, jsonLoads, Json.loads_dumps hplain, subscript, mapText]

theorem exists_lookup {members : List (PyStr × Json)} {name : PyStr}
    (h : name ∈ members.map Prod.fst) : ∃ v, members.lookup name = some v := by
  rcases List.mem_map.1 h with ⟨m, hm, rfl⟩
  exact Option.isSome_iff_exists.1 (List.lookup_isSome_iff.2 ⟨m, hm, by simp⟩)

/-- What the map has under a name, in terms of the file uploaded under it. -/
theorem lookup_urlMap {R : PyStr × PyStr → PyStr → Prop} {name : PyStr} {v : Json}
    (h : List.Forall₂ R files links) (hv : (urlMap files links).lookup name = some v) :
    ∃ content l, (name, content) ∈ files ∧ v = .str l ∧ R (name, content) l := by
  induction h with
  | nil => cases hv
  | @cons f l files links hR _ ih =>
      rcases f with ⟨filename, content⟩
      simp only [urlMap, List.map_cons, List.zip_cons_cons, List.lookup_cons] at hv
      split at hv
      · rename_i heq
        have hname : name = filename := by simpa using heq
        subst hname
        cases hv
        exact ⟨content, l, by simp, rfl, hR⟩
      · rcases ih hv with ⟨content', l', hmem, rfl, hR'⟩
        exact ⟨content', l', by simp [hmem], rfl, hR'⟩

/-! ## Where the uploads are -/

/-- What a submit saves, and where: its files, and the file dictionary if it stores one. -/
def savedFiles (cfg : Config) (header queueName : PyStr) (files : List (PyStr × PyStr))
    (links : List PyStr) : List (PyStr × PyStr) :=
  pathFiles cfg header queueName files ++
    if isSpilled files links then
      [(dictPath cfg header queueName files, dictText cfg header files links)]
    else []

def usedPaths (cfg : Config) (header queueName : PyStr) (files : List (PyStr × PyStr))
    (links : List PyStr) : List PyStr :=
  (savedFiles cfg header queueName files links).map Prod.fst

/-- Every path is free when it is used: before the submit, and not used by it already. -/
structure FreePaths (contract : StorageContract storage.save storage.url) (st : σ)
    (paths : List PyStr) : Prop where
  free : ∀ path ∈ paths, contract.content st path = none
  nodup : paths.Nodup

variable {contract : StorageContract storage.save storage.url} {st₂ : σ}

/-- The text records the links: it is the map, or it leads to the file dictionary. -/
def RecordsLinks (cfg : Config) (contract : StorageContract storage.save storage.url) (header : PyStr)
    (files : List (PyStr × PyStr)) (links : List PyStr) (st₂ : σ) (text : PyStr) : Prop :=
  text = mapText files links ∨
    ∃ url, text = pointerText url ∧ contract.fetched st₂ url = some (dictText cfg header files links)

/-- If what a submit saves fits into the storage, every file is at its URL and so is the
dictionary, as long as the storage keeps them. -/
theorem StoredMap.fetched {text : PyStr}
    (h : StoredMap cfg storage header queueName files st links st' text)
    (hfits : contract.Fits st (savedFiles cfg header queueName files links))
    (hkeeps : contract.Keeps st' st₂) :
    List.Forall₂ (fun f l => contract.fetched st₂ l = some f.2) files links ∧
      RecordsLinks cfg contract header files links st₂ text := by
  cases h with
  | inline hshort huploads =>
      rw [savedFiles, hshort, if_neg Bool.false_ne_true, List.append_nil] at hfits
      exact ⟨List.forall₂_map_left_iff.1 (huploads.fetched hfits hkeeps), Or.inl rfl⟩
  | @spilled st₁ url hlong huploads hdict =>
      rw [savedFiles, hlong, if_pos rfl] at hfits
      rcases huploads.fetched_last hdict hfits hkeeps with ⟨hfiles, hurl⟩
      exact ⟨List.forall₂_map_left_iff.1 hfiles, Or.inr ⟨url, rfl, hurl⟩⟩

/-- Free paths are one reason for a fit. -/
theorem StoredMap.fits {text : PyStr}
    (h : StoredMap cfg storage header queueName files st links st' text)
    (hfree : FreePaths contract st (usedPaths cfg header queueName files links)) :
    contract.Fits st (savedFiles cfg header queueName files links) := by
  have huploads : ∃ ls, Uploads storage.save storage.url st (savedFiles cfg header queueName files links)
      ls st' := by
    cases h with
    | inline hshort huploads => exact ⟨links, by simpa [savedFiles, hshort] using huploads⟩
    | spilled hlong huploads hdict => exact ⟨_, by simpa [savedFiles, hlong] using huploads.append hdict⟩
  rcases huploads with ⟨ls, huploads⟩
  exact huploads.fits (fun f hf => hfree.free f.1 (List.mem_map_of_mem hf)) hfree.nodup

/-! ## A storage in memory -/

/-- A name that is longer than all the stored ones. -/
def freshName (st : List (PyStr × PyStr)) (path : PyStr) : PyStr :=
  path ++ List.replicate ((st.map (fun f => f.1.length)).sum + 1) (ch '_')

/-- A storage that keeps its files in a list and addresses a file by its path. -/
def memoryStorage : Storage (List (PyStr × PyStr)) where
  save := fun st path content =>
    let name := if (st.lookup path).isSome then freshName st path else path
    ((name, content) :: st, .ok name)
  url := fun _ path => if PyStr.Encodable path then .ok path else .error .unicodeEncodeError

theorem lookup_freshName (st : List (PyStr × PyStr)) (path : PyStr) :
    st.lookup (freshName st path) = none := by
  rw [List.lookup_eq_none_iff]
  intro f hf
  have hle : f.1.length ≤ (st.map (fun f => f.1.length)).sum :=
    List.le_sum_of_mem (List.mem_map_of_mem hf)
  have hne : freshName st path ≠ f.1 := by
    intro heq
    have hlen := congrArg List.length heq
    simp only [freshName, List.length_append, List.length_replicate] at hlen
    omega
  simpa using hne

def memoryContract : StorageContract memoryStorage.save memoryStorage.url where
  content := fun st name => st.lookup name
  target := some
  save_fresh := by
    intro st st' name chosen c h
    simp only [memoryStorage, Prod.mk.injEq, Except.ok.injEq] at h
    rcases h with ⟨-, rfl⟩
    split
    · exact lookup_freshName st name
    · rename_i hfree
      exact Option.not_isSome_iff_eq_none.1 hfree
  save_content := by
    intro st st' name chosen c h
    simp only [memoryStorage, Prod.mk.injEq, Except.ok.injEq] at h
    rcases h with ⟨rfl, rfl⟩
    simp
  save_free := by
    intro st st' name chosen c h hfree
    simp only [memoryStorage, Prod.mk.injEq, Except.ok.injEq] at h
    rcases h with ⟨-, rfl⟩
    simp [hfree]
  save_other := by
    intro st st' name chosen c other h hne
    simp only [memoryStorage, Prod.mk.injEq, Except.ok.injEq] at h
    rcases h with ⟨rfl, rfl⟩
    have hbeq : (other == if (st.lookup name).isSome then freshName st name else name) = false := by
      simpa using hne
    simp only [List.lookup_cons, hbeq]
  save_error := by
    intro st st' name c e other d h
    simp [memoryStorage] at h
  link_target := by
    intro st name l h
    simp only [memoryStorage] at h
    split at h
    · rw [Except.ok.inj h]
    · cases h

theorem encodable_memoryUrl (st : List (PyStr × PyStr)) (path url : PyStr)
    (h : memoryStorage.url st path = .ok url) : PyStr.Encodable url := by
  simp only [memoryStorage] at h
  split at h
  · rename_i henc
    exact Except.ok.inj h ▸ henc
  · cases h

/-- The checks do not look at the files. -/
theorem submitChecks_jobWithFiles {url : PyStr} {files : List (PyStr × PyStr)}
    {hnames : ∀ f ∈ files, PyStr.Encodable f.1} {hnodup : (files.map Prod.fst).Nodup}
    (h : PyStr.Encodable url) : submitChecks devSettings (jobWithFiles url files hnames hnodup) =
      .ok ⟨.str url, py "test-pull", jobHeader url (py "test-pull"), py "answer"⟩ := by
  have hjob := submitChecks_jobFor h
  exact hjob

/-- An empty storage has a free path for a single file, and for its dictionary. -/
theorem freePaths_single {header queueName : PyStr} {f : PyStr × PyStr} {links : List PyStr}
    (h : uploadPath devSettings header queueName f.1 ≠ dictPath devSettings header queueName [f]) :
    FreePaths memoryContract [] (usedPaths devSettings header queueName [f] links) where
  free := fun _ _ => rfl
  nodup := by
    rw [usedPaths, savedFiles]
    split
    · simpa [pathFiles] using h
    · simp [pathFiles]

end Xqueue
