import Mathlib.Data.List.DropRight
import Xqueue.FileMap
import Xqueue.Library.JsonLength
import Xqueue.Library.JsonPrefix

/-!
# StorageNames — the names of uploads do not collide

The hash seed of an upload is the header with the file name behind it, without a separator.

* `hashSeeds`, `savedPaths` : the seeds of a request, and the paths that its submit saves under,
  which a storage with a log observes;
* `savedPaths_eq` : the paths come from the seeds, in their order, as far as the submit gets;
* `nodup_hashSeeds` : a dump of names is longer than each of the names;
* `disjoint_hashSeeds` : one header goes on after another one by white space only, and neither a
  file name nor a dump starts with that;
* `storage_names_apart` : the seeds, and the paths.
-/

namespace Xqueue

open Library

variable {σ : Type} {cfg : Config} {storage : Storage σ} {st : σ} {header queueName : PyStr}
  {names : List PyStr} {request : HttpRequest} {env : SubmitEnv} {t : Table} {log : List PyStr}

/-! ## Seeds and paths -/

def HttpRequest.filenames (request : HttpRequest) : List PyStr :=
  request.files.map Prod.fst

/-- The seeds of the files, and the one of the file dictionary. -/
def hashSeeds (header : PyStr) (names : List PyStr) : List PyStr :=
  names.map (fun name => header ++ name) ++ [header ++ Json.dumps (.arr (names.map Json.str))]

def seedPath (cfg : Config) (queueName seed : PyStr) : PyStr :=
  pathJoin queueName (cfg.md5 seed)

/-- The storage, with a log of the paths under which files are saved. -/
def loggedStorage (storage : Storage σ) : Storage (σ × List PyStr) where
  save := fun st path content =>
    let (st', chosen) := storage.save st.1 path content
    ((st', st.2 ++ [path]), chosen)
  url := fun st path => storage.url st.1 path

/-- The paths under which a submit saves files. -/
def savedPaths (cfg : Config) (storage : Storage σ) (env : SubmitEnv) (request : HttpRequest)
    (st : σ) (t : Table) : List PyStr :=
  (submit cfg (loggedStorage storage) env request (st, []) t).1.2

/-! ## What the log observes -/

theorem upload_logged (content path name : PyStr) :
    upload (loggedStorage storage) (st, log) content path name =
      (((upload storage st content path name).1, log ++ [pathJoin path name]),
        (upload storage st content path name).2) := by
  rcases hsave : storage.save st (pathJoin path name) content with ⟨st', chosen⟩
  cases chosen <;> simp only [upload, loggedStorage, hsave]

/-- The loop over the files logs the paths of the first ones, up to a failure. -/
theorem uploadEach_logged {files : List (PyStr × PyStr)} {urls keys : List (PyStr × Json)} :
    ∃ seeds, seeds <+: files.map (fun f => header ++ f.1) ∧
      uploadEach cfg (loggedStorage storage) header queueName files (st, log) urls keys =
        (((uploadEach cfg storage header queueName files st urls keys).1,
          log ++ seeds.map (seedPath cfg queueName)),
          (uploadEach cfg storage header queueName files st urls keys).2) ∧
      ∀ maps, (uploadEach cfg storage header queueName files st urls keys).2 = .ok maps →
        seeds = files.map (fun f => header ++ f.1) := by
  induction files generalizing st log urls keys with
  | nil => exact ⟨[], List.prefix_rfl, by simp [uploadEach], fun _ _ => rfl⟩
  | cons f files ih =>
      rcases f with ⟨filename, content⟩
      cases hkey : makeHashkey cfg (header ++ filename) with
      | error e => exact ⟨[], List.nil_prefix, by simp [uploadEach, hkey], by simp [uploadEach, hkey]⟩
      | ok key =>
          have hpath : pathJoin queueName key = seedPath cfg queueName (header ++ filename) := by
            rw [eq_md5_of_makeHashkey hkey, seedPath]
          rcases hup : upload storage st content queueName key with ⟨st', e | url⟩
          · refine ⟨[header ++ filename], List.cons_prefix_cons.2 ⟨rfl, List.nil_prefix⟩, ?_, ?_⟩
            · simp [uploadEach, hkey, upload_logged, hup, hpath]
            · simp [uploadEach, hkey, hup]
          · rcases @ih st' (log ++ [pathJoin queueName key]) (Json.setItem urls filename (.str url))
              (Json.setItem keys filename (.str key)) with ⟨seeds, hpre, hrun, hok⟩
            refine ⟨(header ++ filename) :: seeds, List.cons_prefix_cons.2 ⟨rfl, hpre⟩, ?_, ?_⟩
            · simp only [uploadEach, hkey, upload_logged, hup]
              rw [hrun, hpath, List.map_cons, List.append_assoc, List.singleton_append]
            · intro maps h
              simp only [uploadEach, hkey, hup] at h
              rw [hok maps h, List.map_cons]

/-- The uploads of a request log the paths of the first seeds, up to a failure. -/
theorem uploadFiles_logged : ∃ seeds, seeds <+: hashSeeds header request.filenames ∧
    uploadFiles cfg (loggedStorage storage) (st, log) request header queueName =
      (((uploadFiles cfg storage st request header queueName).1,
        log ++ seeds.map (seedPath cfg queueName)),
        (uploadFiles cfg storage st request header queueName).2) := by
  have hfiles : request.filenames.map (fun name => header ++ name) =
      request.files.map (fun f => header ++ f.1) := List.map_map
  have hdump : Json.arr (request.files.map (fun f => Json.str f.1)) =
      .arr (request.filenames.map Json.str) := congrArg Json.arr (List.map_map).symm
  rcases @uploadEach_logged σ cfg storage st header queueName log request.files [] [] with
    ⟨seeds, hpre, hrun, hok⟩
  have hpre' : seeds <+: hashSeeds header request.filenames := by
    rw [hashSeeds, hfiles]
    exact hpre.trans (List.prefix_append _ _)
  rcases heach : uploadEach cfg storage header queueName request.files st [] [] with
    ⟨st', e | ⟨urls, keys⟩⟩
  · refine ⟨seeds, hpre', ?_⟩
    simp only [uploadFiles, hrun, heach]
  · rw [heach] at hrun
    by_cases hlong : charfieldLenLarge < (Json.dumps (.obj urls)).length
    · cases hkey : makeHashkey cfg (header ++ Json.dumps (.arr (request.files.map
          (fun f => Json.str f.1)))) with
      | error e =>
          refine ⟨seeds, hpre', ?_⟩
          simp only [uploadFiles, hrun, heach, hlong, if_true, hkey]
      | ok key =>
          have hpath : pathJoin queueName key = seedPath cfg queueName
              (header ++ Json.dumps (.arr (request.filenames.map Json.str))) := by
            rw [eq_md5_of_makeHashkey hkey, seedPath, hdump]
          have hall : hashSeeds header request.filenames = seeds ++
              [header ++ Json.dumps (.arr (request.filenames.map Json.str))] := by
            rw [hashSeeds, hfiles, hok (urls, keys) (by rw [heach])]
          refine ⟨hashSeeds header request.filenames, List.prefix_rfl, ?_⟩
          simp only [uploadFiles, hrun, heach, hlong, if_true, hkey, uploadFileDict, upload_logged]
          rw [hall, hpath, List.map_append, List.append_assoc]
          rcases upload storage st' (Json.dumps (.obj [(py "files", .obj urls), (py "keys", .obj keys)]))
            queueName key with ⟨st'', e | url⟩ <;> rfl
    · refine ⟨seeds, hpre', ?_⟩
      simp only [uploadFiles, hrun, heach, hlong, if_false]

theorem storeSubmission_logged {valid : ValidRequest} {callback : PyStr} :
    ∃ seeds, seeds <+: hashSeeds valid.header request.filenames ∧
      storeSubmission cfg (loggedStorage storage) env request valid callback (st, []) t =
        (((storeSubmission cfg storage env request valid callback st t).1,
          seeds.map (seedPath cfg valid.queueName)),
          (storeSubmission cfg storage env request valid callback st t).2) := by
  rcases @uploadFiles_logged σ cfg storage st valid.header valid.queueName request [] with
    ⟨seeds, hpre, hrun⟩
  refine ⟨seeds, hpre, ?_⟩
  simp only [storeSubmission, hrun, List.nil_append]
  rcases uploadFiles cfg storage st request valid.header valid.queueName with
    ⟨st', e | ⟨urlsJson, keysJson⟩⟩
  · rfl
  · cases (env.dbAccepts && decide (t.nextKey ≤ maxId)) <;> rfl

/-- The log changes nothing for the submit. -/
theorem submit_logged :
    (submit cfg (loggedStorage storage) env request (st, []) t).1.1 =
      (submit cfg storage env request st t).1 ∧
    (submit cfg (loggedStorage storage) env request (st, []) t).2 =
      (submit cfg storage env request st t).2 := by
  cases hchecks : submitChecks cfg request with
  | error response => simp [submit, hchecks]
  | ok valid =>
      cases hcallback : storedCallback cfg valid.lmsCallbackUrl with
      | error e => simp [submit, hchecks, hcallback]
      | ok callback =>
          rcases @storeSubmission_logged σ cfg storage st request env
            (invalidatePriorSubmissions callback t) valid callback with ⟨seeds, -, hstore⟩
          simp [submit, hchecks, hcallback, hstore]

/-- An accepted submit saves under the paths of its first seeds, up to a failure. -/
theorem savedPaths_eq {valid : ValidRequest} (hchecks : submitChecks cfg request = .ok valid) :
    ∃ seeds, seeds <+: hashSeeds valid.header request.filenames ∧
      savedPaths cfg storage env request st t = seeds.map (seedPath cfg valid.queueName) := by
  cases hcallback : storedCallback cfg valid.lmsCallbackUrl with
  | error e => exact ⟨[], List.nil_prefix, by simp [savedPaths, submit, hchecks, hcallback]⟩
  | ok callback =>
      rcases @storeSubmission_logged σ cfg storage st request env
        (invalidatePriorSubmissions callback t) valid callback with ⟨seeds, hpre, hstore⟩
      exact ⟨seeds, hpre, by simp [savedPaths, submit, hchecks, hcallback, hstore]⟩

/-! ## Seeds of one request -/

/-- A dump of names is longer than each of them. -/
theorem ne_dumps_of_mem {name : PyStr} (h : name ∈ names) :
    name ≠ Json.dumps (.arr (names.map Json.str)) := by
  intro heq
  have hname : name.length < (Json.dumps (.str name)).length := Json.length_dumpsStr_gt name
  have hdump := Json.length_dumps_lt_of_mem (List.mem_map_of_mem (f := Json.str) h)
  rw [← heq] at hdump
  omega

theorem nodup_hashSeeds (h : names.Nodup) : (hashSeeds header names).Nodup := by
  rw [hashSeeds, List.nodup_append']
  refine ⟨h.map (List.append_right_injective header), List.nodup_singleton _, ?_⟩
  intro seed hseed hdict
  rcases List.mem_map.1 hseed with ⟨name, hname, rfl⟩
  exact ne_dumps_of_mem hname (List.append_cancel_left (List.mem_singleton.1 hdict))

/-! ## Seeds of two requests -/

/-- No white space at the start, as the multipart parser leaves the name of a field. -/
def Stripped (name : PyStr) : Prop :=
  ∀ c cs, name = c :: cs → PyStr.isSpace c = false

instance (name : PyStr) : Decidable (Stripped name) :=
  decidable_of_iff (name.head?.all (fun c => !PyStr.isSpace c) = true) (by
    cases name <;> simp [Stripped])

theorem isSpace_of_isWs {c : PyChar} (h : Json.isWs c = true) : PyStr.isSpace c = true := by
  simp only [Json.isWs, Bool.or_eq_true, decide_eq_true_eq] at h
  rcases h with ((rfl | rfl) | rfl) | rfl <;> decide

/-- The text behind the header in a seed. -/
theorem exists_suffix_of_mem {seed : PyStr} (hnames : ∀ name ∈ names, Stripped name)
    (h : seed ∈ hashSeeds header names) : ∃ suffix, seed = header ++ suffix ∧ Stripped suffix := by
  rcases List.mem_append.1 h with h | h
  · rcases List.mem_map.1 h with ⟨name, hname, rfl⟩
    exact ⟨name, rfl, hnames name hname⟩
  · refine ⟨_, List.mem_singleton.1 h, ?_⟩
    intro c cs heq
    have hopen : c = ch '[' := by
      cases names with
      | nil => exact (List.cons.inj heq).1.symm
      | cons name names => exact (List.cons.inj heq).1.symm
    rw [hopen]
    decide

/-- A header cannot go on as the header of another request, if what is behind it is stripped. -/
theorem append_ne_of_loads {members : List (PyStr × Json)} {v : Json} {more suffix suffix' : PyStr}
    (h : Json.loads header = some (.obj members)) (h' : Json.loads (header ++ more) = some v)
    (hne : more ≠ []) (hstripped : Stripped suffix) : suffix ≠ more ++ suffix' := by
  intro heq
  rcases List.exists_cons_of_ne_nil hne with ⟨c, cs, rfl⟩
  have hws := isSpace_of_isWs (Json.isWs_of_loads_append h h' c List.mem_cons_self)
  rw [hstripped c (cs ++ suffix') heq] at hws
  cases hws

theorem disjoint_hashSeeds {header' : PyStr} {names' : List PyStr} {members members' : List (PyStr × Json)}
    (h : Json.loads header = some (.obj members)) (h' : Json.loads header' = some (.obj members'))
    (hnames : ∀ name ∈ names, Stripped name) (hnames' : ∀ name ∈ names', Stripped name)
    (hne : header ≠ header') : (hashSeeds header names).Disjoint (hashSeeds header' names') := by
  intro seed hseed hseed'
  rcases exists_suffix_of_mem hnames hseed with ⟨suffix, rfl, hstripped⟩
  rcases exists_suffix_of_mem hnames' hseed' with ⟨suffix', heq, hstripped'⟩
  rcases List.append_eq_append_iff.1 heq with ⟨more, rfl, hsuffix⟩ | ⟨more, rfl, hsuffix⟩
  · have hmore : more ≠ [] := by
      rintro rfl
      exact hne (List.append_nil header).symm
    exact append_ne_of_loads h h' hmore hstripped hsuffix
  · have hmore : more ≠ [] := by
      rintro rfl
      exact hne (List.append_nil header')
    exact append_ne_of_loads h' h hmore hstripped' hsuffix

/-! ## Paths -/

/-- The last component of a path. -/
def basename (path : PyStr) : PyStr :=
  path.rtakeWhile (fun c => c ≠ ch '/')

theorem basename_of_notMem {name : PyStr} (h : ch '/' ∉ name) : basename name = name := by
  refine List.rtakeWhile_eq_self_iff.2 fun c hc => ?_
  exact decide_eq_true fun heq => h (heq ▸ hc)

theorem basename_append {path name : PyStr} (h : ch '/' ∉ name) :
    basename (path ++ ch '/' :: name) = name := by
  have hname : ∀ c ∈ name.reverse, decide (c ≠ ch '/') = true := by
    intro c hc
    exact decide_eq_true fun heq => h (heq ▸ List.mem_reverse.1 hc)
  rw [basename, List.rtakeWhile, List.reverse_append, List.reverse_cons, List.append_assoc,
    List.takeWhile_append_of_pos hname, List.singleton_append, List.takeWhile_cons_of_neg (by simp),
    List.append_nil, List.reverse_reverse]

theorem basename_pathJoin {path name : PyStr} (h : ch '/' ∉ name) :
    basename (pathJoin path name) = name := by
  have habsolute : name.head? ≠ some (ch '/') := fun hhead => h (List.mem_of_mem_head? hhead)
  rw [pathJoin, if_neg habsolute]
  split_ifs with hpath
  · rcases hpath with rfl | hlast
    · exact basename_of_notMem h
    · rcases List.getLast?_eq_some_iff.1 hlast with ⟨ys, rfl⟩
      rw [List.append_assoc, List.singleton_append]
      exact basename_append h
  · exact basename_append h

/-- The path determines the seed. -/
theorem seedPath_inj {queueName' seed seed' : PyStr} (hmd5 : Function.Injective cfg.md5)
    (hhex : ∀ seed, ch '/' ∉ cfg.md5 seed)
    (h : seedPath cfg queueName seed = seedPath cfg queueName' seed') : seed = seed' := by
  have hbase := congrArg basename h
  rw [seedPath, seedPath, basename_pathJoin (hhex seed), basename_pathJoin (hhex seed')] at hbase
  exact hmd5 hbase

/-- Distinct names for what is stored.

For an injective hash whose digests have no slash, any storage and any two accepted submits whose
file names are stripped: the seeds of one submit are distinct, and so are the paths it saves
under; if the headers differ, the other submit has none of these seeds and none of these paths. -/
theorem storage_names_apart {σ : Type} {cfg : Config} {storage : Storage σ} {env env' : SubmitEnv}
    {request request' : HttpRequest} {valid valid' : ValidRequest} {st st' : σ} {t t' : Table}
    (hmd5 : Function.Injective cfg.md5) (hhex : ∀ seed, ch '/' ∉ cfg.md5 seed)
    (hchecks : submitChecks cfg request = .ok valid)
    (hchecks' : submitChecks cfg request' = .ok valid')
    (hnames : ∀ name ∈ request.filenames, Stripped name)
    (hnames' : ∀ name ∈ request'.filenames, Stripped name) :
    (hashSeeds valid.header request.filenames).Nodup ∧
      (∃ seeds, seeds <+: hashSeeds valid.header request.filenames ∧
        savedPaths cfg storage env request st t = seeds.map (seedPath cfg valid.queueName)) ∧
      (savedPaths cfg storage env request st t).Nodup ∧
      (valid.header ≠ valid'.header →
        (hashSeeds valid.header request.filenames).Disjoint
            (hashSeeds valid'.header request'.filenames) ∧
          (savedPaths cfg storage env request st t).Disjoint
            (savedPaths cfg storage env' request' st' t')) := by
  have hnodup : (hashSeeds valid.header request.filenames).Nodup := nodup_hashSeeds request.nodup_files
  rcases @savedPaths_eq σ cfg storage st request env t valid hchecks with ⟨seeds, hpre, hsaved⟩
  rcases @savedPaths_eq σ cfg storage st' request' env' t' valid' hchecks' with
    ⟨seeds', hpre', hsaved'⟩
  refine ⟨hnodup, ⟨seeds, hpre, hsaved⟩, ?_, ?_⟩
  · rw [hsaved]
    exact (hnodup.sublist hpre.sublist).map_on fun s _ s' _ h => seedPath_inj hmd5 hhex h
  · intro hne
    rcases isValidRequest_eq_some (submitChecks_eq_ok.1 hchecks).2.2.1 with
      ⟨-, -, members, -, -, hdecode, -⟩
    rcases isValidRequest_eq_some (submitChecks_eq_ok.1 hchecks').2.2.1 with
      ⟨-, -, members', -, -, hdecode', -⟩
    have hdisjoint := disjoint_hashSeeds (Json.loads_of_decode hdecode)
      (Json.loads_of_decode hdecode') hnames hnames' hne
    refine ⟨hdisjoint, ?_⟩
    rw [hsaved, hsaved']
    intro path hpath hpath'
    rcases List.mem_map.1 hpath with ⟨seed, hseed, rfl⟩
    rcases List.mem_map.1 hpath' with ⟨seed', hseed', heq⟩
    rw [seedPath_inj hmd5 hhex heq] at hseed'
    exact hdisjoint (hpre.subset hseed) (hpre'.subset hseed')

theorem slash_notMem_digest (seed : PyStr) : ch '/' ∉ digest seed := by
  have hhex : ∀ k < 16, ch '/' ≠ ch k.digitChar := by decide
  intro hmem
  rcases mem_digest hmem with heq | ⟨m, heq⟩
  · exact absurd heq (by decide)
  · exact hhex _ (Nat.mod_lt _ (by decide)) heq

/-- A job with two files, one with a name that starts with a brace, whose map is spilled. -/
def braceJob (postUrl : PyStr) : HttpRequest :=
  jobWithFiles postUrl [(longName, py "1"), (py "\x7b\x7d", py "2")] (by decide +kernel)
    (by decide +kernel)

/-- The files and the file dictionaries of two jobs are saved under six paths. -/
theorem storage_names_apart_twoJobs :
    let saved := savedPaths devSettings memoryStorage ⟨clockAt 0, clockAt 0, true⟩
      (braceJob (py "/lms/1/problem")) [] KeyedTable.empty
    let saved' := savedPaths devSettings memoryStorage ⟨clockAt 1, clockAt 1, true⟩
      (braceJob (py "/lms/2/problem")) [] KeyedTable.empty
    saved.Nodup ∧ saved.Disjoint saved' ∧ saved.length = 3 ∧ saved'.length = 3 := by
  have hspec := @storage_names_apart _ devSettings memoryStorage ⟨clockAt 0, clockAt 0, true⟩
    ⟨clockAt 1, clockAt 1, true⟩ (braceJob (py "/lms/1/problem")) (braceJob (py "/lms/2/problem"))
    _ _ [] [] KeyedTable.empty KeyedTable.empty digest_injective slash_notMem_digest
    (submitChecks_jobWithFiles (by decide)) (submitChecks_jobWithFiles (by decide)) (by decide)
    (by decide)
  have hne : jobHeader (py "/lms/1/problem") (py "test-pull") ≠
      jobHeader (py "/lms/2/problem") (py "test-pull") := by decide +kernel
  exact ⟨hspec.2.2.1, (hspec.2.2.2 hne).2, by decide +kernel, by decide +kernel⟩

end Xqueue
