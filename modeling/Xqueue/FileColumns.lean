import Xqueue.StorageNames

/-!
# FileColumns — both file columns fit

Only the text of the URL map is measured before it is stored; the text of the key map goes with it.

* `columns_of_uploadFiles` : the texts of both columns, in the two formats;
* `length_keyMap_le`, `length_keyPointerText_le` : a key is part of its URL, so that its map is no
  longer, member by member;
* `both_columns_fit` : the row that a submit inserts.
-/

namespace Xqueue

open Library

variable {σ : Type} {cfg : Config} {storage : Storage σ} {header queueName : PyStr}
  {files : List (PyStr × PyStr)} {links : List PyStr} {st st' : σ}

/-- The text that records the key of a file dictionary. -/
def keyPointerText (key : PyStr) : PyStr :=
  Json.dumps (.obj [(py "KEY_FOR_EXTERNAL_DICTS", .str key)])

/-- `json.dumps(keys)` -/
def keyMapText (cfg : Config) (header : PyStr) (files : List (PyStr × PyStr)) : PyStr :=
  Json.dumps (.obj (keyMap cfg header files))

/-- The URL that a storage gives for the path of a seed, at some time. -/
def GivesUrl (cfg : Config) (storage : Storage σ) (queueName seed url : PyStr) : Prop :=
  ∃ st, storage.url st (seedPath cfg queueName seed) = .ok url

/-- The texts of `s3_urls` and `s3_keys`. -/
inductive StoredColumns (cfg : Config) (storage : Storage σ) (header queueName : PyStr)
    (files : List (PyStr × PyStr)) : PyStr → PyStr → Prop
  | inline {links : List PyStr} : isSpilled files links = false →
      List.Forall₂ (fun f l => GivesUrl cfg storage queueName (header ++ f.1) l) files links →
        StoredColumns cfg storage header queueName files (mapText files links)
          (keyMapText cfg header files)
  | spilled {seed url : PyStr} : GivesUrl cfg storage queueName seed url →
        StoredColumns cfg storage header queueName files (pointerText url)
          (keyPointerText (cfg.md5 seed))

theorem columns_of_uploadFiles {request : HttpRequest} {urlsJson keysJson : PyStr}
    (h : uploadFiles cfg storage st request header queueName = (st', .ok (urlsJson, keysJson))) :
    StoredColumns cfg storage header queueName request.files urlsJson keysJson := by
  rw [uploadFiles] at h
  rcases heach : uploadEach cfg storage header queueName request.files st [] [] with
    ⟨st₁, e | ⟨urls, keys⟩⟩
  · simp [heach] at h
  rcases uploads_of_uploadEach (by simpa using request.nodup_files) rfl heach with
    ⟨links, huploads, rfl, rfl⟩
  have hlinks : List.Forall₂ (fun f l => GivesUrl cfg storage queueName (header ++ f.1) l)
      request.files links := by
    have hgives := huploads.forall₂_link
    rw [pathFiles, List.forall₂_map_left_iff] at hgives
    exact hgives
  simp only [heach, List.nil_append] at h
  split_ifs at h with hlong
  · cases hkey : makeHashkey cfg (header ++ Json.dumps (.arr (request.files.map
        (fun f => Json.str f.1)))) with
    | error e => simp [hkey] at h
    | ok key =>
        rcases hdict : uploadFileDict storage st₁ (urlMap request.files links)
          (keyMap cfg header request.files) queueName key with ⟨st₂, e | url⟩
        · simp [hkey, hdict] at h
        · simp only [hkey, hdict] at h
          cases h
          rw [eq_md5_of_makeHashkey hkey] at hdict ⊢
          have hurl := (upload_eq_ok hdict).forall₂_link
          rcases List.forall₂_cons.1 hurl with ⟨hgives, -⟩
          exact StoredColumns.spilled hgives
  · cases h
    exact StoredColumns.inline (decide_eq_false hlong) hlinks

/-! ## Lengths -/

theorem length_dumpsMember_le {name key url : PyStr} (h : key <:+: url) :
    (Json.dumpsMember (name, .str key)).length ≤ (Json.dumpsMember (name, .str url)).length := by
  have hdump : (Json.dumps (.str key)).length ≤ (Json.dumps (.str url)).length :=
    Json.length_dumpsStr_le h.sublist
  simp only [Json.dumpsMember, List.length_append]
  omega

/-- The map of keys is no longer than the map of URLs that contain them. -/
theorem length_keyMap_le
    (h : List.Forall₂ (fun f l => cfg.md5 (header ++ f.1) <:+: l) files links) :
    (keyMapText cfg header files).length ≤ (mapText files links).length := by
  refine Json.length_dumps_obj_le ?_
  induction h with
  | nil => exact List.Forall₂.nil
  | cons hkey _ ih => exact List.Forall₂.cons (length_dumpsMember_le hkey) ih

/-- The two markers are equally long. -/
theorem length_keyPointerText_le {key url : PyStr} (h : key <:+: url) :
    (keyPointerText key).length ≤ (pointerText url).length := by
  have hmarker : (Json.dumpsStr (py "KEY_FOR_EXTERNAL_DICTS")).length =
      (Json.dumpsStr urlMarker).length := by decide
  have hdump : (Json.dumps (.str key)).length ≤ (Json.dumps (.str url)).length :=
    Json.length_dumpsStr_le h.sublist
  refine Json.length_dumps_obj_le (List.Forall₂.cons ?_ List.Forall₂.nil)
  simp only [Json.dumpsMember, List.length_append]
  omega

theorem StoredColumns.length_le {urlsJson keysJson : PyStr}
    (h : StoredColumns cfg storage header queueName files urlsJson keysJson)
    (hcontains : ∀ seed url, GivesUrl cfg storage queueName seed url → cfg.md5 seed <:+: url)
    (hsingle : ∀ seed url, GivesUrl cfg storage queueName seed url →
      (pointerText url).length ≤ charfieldLenLarge) :
    urlsJson.length ≤ charfieldLenLarge ∧ keysJson.length ≤ urlsJson.length := by
  cases h with
  | inline hshort hlinks =>
      refine ⟨not_lt.1 (of_decide_eq_false hshort), length_keyMap_le ?_⟩
      exact hlinks.imp fun f l hgives => hcontains _ l hgives
  | spilled hgives =>
      exact ⟨hsingle _ _ hgives, length_keyPointerText_le (hcontains _ _ hgives)⟩

/-- The columns of an inserted row.

For any storage whose URLs contain the hash keys of the paths, and for which the map of a single
such URL fits into the column: the map of URLs fits, and the map of keys is no longer, in the row
that a submit inserts for any files. -/
theorem both_columns_fit {σ : Type} {cfg : Config} {storage : Storage σ} {env : SubmitEnv}
    {request request' : HttpRequest} {st : σ} {t : Table} {row : Submission}
    (hcontains : ∀ seed url, GivesUrl cfg storage row.queueName seed url → cfg.md5 seed <:+: url)
    (hsingle : ∀ seed url, GivesUrl cfg storage row.queueName seed url →
      (Json.dumps (.obj [(py "URL_FOR_EXTERNAL_DICTS", .str url)])).length ≤ charfieldLenLarge)
    (h : .inserted request' row ∈ (submit cfg storage env request st t).2.outputs) :
    row.s3Urls.length ≤ charfieldLenLarge ∧ row.s3Keys.length ≤ charfieldLenLarge ∧
      row.s3Keys.length ≤ row.s3Urls.length := by
  rcases stored_of_inserted h with ⟨rfl, valid, callback, urlsJson, keysJson, -, hup, rfl, -, -⟩
  have hlength := (columns_of_uploadFiles hup).length_le hcontains hsingle
  exact ⟨hlength.1, hlength.2.trans hlength.1, hlength.2⟩

/-! ## Three files with long URLs -/

def jobWithManyFiles : HttpRequest :=
  jobWithFiles (py "/lms/1/problem") [(py "a.py", py "1"), (py "b.py", py "2"), (py "c.py", py "3")]
    (by decide) (by decide)

/-- MD5 digests of the seeds of one submit. -/
def uploadDigests : List (PyStr × PyStr) :=
  [(jobHeader (py "/lms/1/problem") (py "test-pull") ++ py "a.py", py "2a85129eb65ec188d9201aa1e137df05"),
    (jobHeader (py "/lms/1/problem") (py "test-pull") ++ py "b.py", py "ea810d6ff24ac543e8f12606fe608c20"),
    (jobHeader (py "/lms/1/problem") (py "test-pull") ++ py "c.py", py "6383d0b46842cc5a30d1206e6de5be73"),
    (jobHeader (py "/lms/1/problem") (py "test-pull") ++ py "[\"a.py\", \"b.py\", \"c.py\"]",
      py "02408e29bfd97434421ef9357e0543df")]

/-- The digest of the empty text stands for those of all other seeds. -/
def uploadDigest (seed : PyStr) : PyStr :=
  match uploadDigests.lookup seed with
  | some d => d
  | none => py "d41d8cd98f00b204e9800998ecf8427e"

theorem uploadDigest_mem (seed : PyStr) :
    uploadDigest seed ∈ py "d41d8cd98f00b204e9800998ecf8427e" :: uploadDigests.map Prod.snd := by
  cases hlookup : uploadDigests.lookup seed with
  | none => simp [uploadDigest, hlookup]
  | some d =>
      rcases List.lookup_eq_some_iff.1 hlookup with ⟨before, after, heq, -⟩
      have hmem : d ∈ uploadDigests.map Prod.snd := by simp [heq]
      simp only [uploadDigest, hlookup]
      exact List.mem_cons_of_mem _ hmem

def uploadSettings : Config :=
  { devSettings with md5 := uploadDigest }

def longPrefix : PyStr :=
  List.replicate 400 (ch 'u')

/-- A storage whose URLs are the paths with a long prefix. -/
def prefixStorage : Storage Unit where
  save := fun st path _ => (st, .ok path)
  url := fun _ path => .ok (longPrefix ++ path)

theorem suffix_pathJoin {path name : PyStr} : name <:+ pathJoin path name := by
  rw [pathJoin]
  split_ifs
  · exact List.suffix_rfl
  · exact List.suffix_append path name
  · exact (List.suffix_cons (ch '/') name).trans (List.suffix_append path _)

theorem eq_of_givesUrl {seed url : PyStr} (h : GivesUrl uploadSettings prefixStorage queueName seed url) :
    url = longPrefix ++ pathJoin queueName (uploadDigest seed) := by
  rcases h with ⟨st, hurl⟩
  exact (Except.ok.inj hurl).symm

theorem both_columns_fit_threeFiles :
    ∃ row, .inserted jobWithManyFiles row ∈ (submit uploadSettings prefixStorage
        ⟨clockAt 0, clockAt 0, true⟩ jobWithManyFiles () KeyedTable.empty).2.outputs ∧
      row.s3Urls.length ≤ charfieldLenLarge ∧ row.s3Keys.length ≤ charfieldLenLarge ∧
      row.s3Keys.length ≤ row.s3Urls.length := by
  have hsuccess : isSuccessReply (submit uploadSettings prefixStorage ⟨clockAt 0, clockAt 0, true⟩
      jobWithManyFiles () KeyedTable.empty).2.result = true := by decide +kernel
  have hqueue : ∀ r ∈ (submit uploadSettings prefixStorage ⟨clockAt 0, clockAt 0, true⟩ jobWithManyFiles
      () KeyedTable.empty).2.table.rows, r.queueName = py "test-pull" := by decide +kernel
  have hlengths : ∀ d ∈ py "d41d8cd98f00b204e9800998ecf8427e" :: uploadDigests.map Prod.snd,
      (Json.dumps (.obj [(py "URL_FOR_EXTERNAL_DICTS",
        .str (longPrefix ++ pathJoin (py "test-pull") d))])).length ≤ charfieldLenLarge := by
    decide +kernel
  generalize jobWithManyFiles = request at *
  rcases exists_inserted hsuccess with ⟨row, hrow⟩
  have hname := hqueue row (storedMap_of_submit hrow).2.1
  refine ⟨row, hrow, both_columns_fit ?_ ?_ hrow⟩
  · intro seed url hgives
    rw [eq_of_givesUrl hgives]
    exact (suffix_pathJoin.trans (List.suffix_append longPrefix _)).isInfix
  · intro seed url hgives
    rw [eq_of_givesUrl hgives, hname]
    exact hlengths _ (uploadDigest_mem seed)

end Xqueue
