import Xqueue.Atomic

/-!
# Deployment — settings, clients and a hash

What surrounds the service: the settings file, the requests that the LMS client and the
graders send, and a collision-free stand-in for the hash that agrees with MD5 on the seeds
of a few pulls and uploads.

* `digest`, `digest_injective` : the hash;
* `settings` : `xqueue/settings.py`;
* `submitJob` : the request of `XQueueClient.submit_job`, accepted by `submitChecks`;
* `pullRequest`, `resultRequest` : the requests of a pull grader.
-/

namespace Xqueue

open Library

/-- The header that `XQueueClient.submit_job` sends. -/
def jobHeader (postUrl queueName : PyStr) : PyStr :=
  Json.dumps (.obj [(py "lms_callback_url", .str postUrl), (py "lms_key", .str (py "qwerty")),
    (py "queue_name", .str queueName)])

theorem plain_jobHeader {postUrl queueName : PyStr} (hurl : PyStr.Encodable postUrl)
    (hqueue : PyStr.Encodable queueName) :
    Json.Plain (.obj [(py "lms_callback_url", .str postUrl), (py "lms_key", .str (py "qwerty")),
      (py "queue_name", .str queueName)]) := by
  refine Json.Plain.obj_of_keys [py "lms_callback_url", py "lms_key", py "queue_name"] rfl
    (by decide) (by decide) ?_
  intro m hm
  simp only [List.mem_cons, List.not_mem_nil, or_false] at hm
  rcases hm with rfl | rfl | rfl
  · exact Json.Plain.str hurl
  · exact Json.Plain.str (by decide)
  · exact Json.Plain.str hqueue

/-! ## A hash -/

/-- MD5 digests of `str(pull_time)+str(submission.id)` for a few times and ids. -/
def pullDigests : List (PyStr × Nat) :=
  [(py "2026-01-01 10:00:00+00:001", 0xbd961d90edf889826cb295c1a916b566),
    (py "2026-01-01 10:01:00+00:001", 0xeaaa7868ba5da1c0b5be0b5b4fc824e9),
    (py "2026-01-01 10:02:00+00:001", 0x419cea329e48534e69cbf637880c0376),
    (py "2026-01-01 10:03:00+00:001", 0xcb8fb81c584faf0ce9c4685757296712),
    (py "2026-01-01 10:04:00+00:001", 0xb04510a308de9515eeedd5d6daab91d0),
    (py "2026-01-01 10:05:00+00:001", 0xbd8dabec17d04d32770b0937c5f7dc4d),
    (py "2026-01-01 10:06:00+00:001", 0xa1d546ba4ea7dc8dda1b1c9be7789bc6),
    (py "2026-01-01 10:08:00+00:001", 0xd86d9f37c19f5e175c4cb0265b80c483),
    (py "2026-01-01 10:01:00+00:002", 0xca1715abc0d1cae575dfd7d8fc64175f),
    (py "2026-01-01 10:02:00+00:002", 0x54bfa1e6f019fe10dedbf5e3adbbab06),
    (py "2026-01-01 10:10:00+00:002", 0x87b5cb390595ae8f080bbae73450f173)]

/-- A name that makes any file map too long for its column. -/
def longName : PyStr :=
  List.replicate 1000 (ch 'a')

/-- MD5 digests of `xqueue_header + filename` and `xqueue_header + json.dumps(filenames)` for the jobs
of two problems. -/
def fileDigests : List (PyStr × Nat) :=
  let header := jobHeader (py "/lms/1/problem") (py "test-pull")
  let header' := jobHeader (py "/lms/2/problem") (py "test-pull")
  [(header ++ py "answer.py", 0x22ef1ac94d340d0c5add8ce5d75dbf4d),
    (header ++ py "[\"answer.py\"]", 0x2f675f6439d1320816cc2232c6232308),
    (header ++ longName, 0xc01adbeb8d98c2f5cc3bf95ce05cdb6a),
    (header ++ (py "[\"" ++ longName ++ py "\"]"), 0x78a1a335e0432b41c4ac0ac80679baaf),
    (header ++ py "\x7b\x7d", 0xe365aa7e038c8a9221cfa968d107c389),
    (header ++ (py "[\"" ++ longName ++ py "\", \"\x7b\x7d\"]"), 0x8e0e6db068b74ab891387dee0d7f9162),
    (header ++ py "URL_FOR_EXTERNAL_DICTS", 0xe6bd376fa61c55f61f3a33507e7a3c6f),
    (header ++ py "[\"URL_FOR_EXTERNAL_DICTS\"]", 0x3e9b565430af089a5aeb62865cd74c5a),
    (header ++ py "URL_FOR_EXTERNAL_DICTS.txt", 0xa3ff38aa9023a174cd1a2f969f0a7544),
    (header ++ py "[\"URL_FOR_EXTERNAL_DICTS.txt\"]", 0x63e8d5d52a37cdcc295c9a7172f645f4),
    (header' ++ py "answer.py", 0xd20c5d91c3f150108e46780ad4286a03),
    (header' ++ py "[\"answer.py\"]", 0x8d463bac812ddf477b9c252ce7558b50),
    (header' ++ longName, 0x6001dbb032fe7f0a3fa2f3dd68458ac0),
    (header' ++ py "\x7b\x7d", 0x7b9b81535a260a20039371acf7c41eb5),
    (header' ++ (py "[\"" ++ longName ++ py "\", \"\x7b\x7d\"]"), 0xa74979fef3a9c9448d68453baba35f30)]

def knownDigests : List (PyStr × Nat) :=
  pullDigests ++ fileDigests

/-- The last `k` hexadecimal digits of a number, the lowest one first. -/
def hexDigits (k n : Nat) : PyStr :=
  (List.range k).map (fun i => Json.hexDigit (n / 16 ^ i))

/-- The text of a digest. -/
def hexdigest (n : Nat) : PyStr :=
  (hexDigits 32 n).reverse

/-- Six hexadecimal digits for each code point, after a mark. -/
def spelledDigest (s : PyStr) : PyStr :=
  ch 'x' :: s.flatMap (fun c => hexDigits 6 c.val)

def digest (s : PyStr) : PyStr :=
  match knownDigests.lookup s with
  | some n => hexdigest n
  | none => spelledDigest s

theorem hexDigit_inj {m n : Nat} (h : Json.hexDigit m = Json.hexDigit n) : m % 16 = n % 16 := by
  have hval := congrArg Json.hexVal? h
  rw [Json.hexVal?_hexDigit, Json.hexVal?_hexDigit] at hval
  exact Option.some.inj hval

theorem hexDigits_inj {m n k : Nat} (h : hexDigits k m = hexDigits k n) :
    m % 16 ^ k = n % 16 ^ k := by
  induction k with
  | zero => simp [Nat.mod_one]
  | succ k ih =>
      -- the digits below the highest one, and the highest one
      simp only [hexDigits, List.range_succ, List.map_append] at h
      rcases List.append_inj h (by simp) with ⟨hlow, hhigh⟩
      have hdigit := hexDigit_inj (List.head_eq_of_cons_eq hhigh)
      rw [Nat.mod_pow_succ, Nat.mod_pow_succ, ih hlow, hdigit]

theorem exists_of_mem_hexDigits {c : PyChar} {k n : Nat} (h : c ∈ hexDigits k n) :
    ∃ m, c = Json.hexDigit m := by
  rcases List.mem_map.1 h with ⟨i, -, rfl⟩
  exact ⟨_, rfl⟩

theorem spelledDigest_injective : Function.Injective spelledDigest := by
  intro s
  induction s with
  | nil =>
      intro t h
      cases t with
      | nil => rfl
      | cons d t => simp [spelledDigest, hexDigits] at h
  | cons c s ih =>
      intro t h
      cases t with
      | nil => simp [spelledDigest, hexDigits] at h
      | cons d t =>
          -- six digits for the first character, then the rest
          simp only [spelledDigest, List.flatMap_cons, List.cons.injEq, true_and] at h
          rcases List.append_inj h (by simp [hexDigits]) with ⟨hhead, htail⟩
          have hmod := hexDigits_inj hhead
          have hc := c.isLt
          have hd := d.isLt
          rw [Nat.mod_eq_of_lt (by omega), Nat.mod_eq_of_lt (by omega)] at hmod
          rw [Fin.ext hmod, ih (congrArg (List.cons (ch 'x')) htail)]

theorem mem_of_lookup {s : PyStr} {n : Nat} (h : knownDigests.lookup s = some n) :
    (s, n) ∈ knownDigests := by
  rcases List.lookup_eq_some_iff.1 h with ⟨before, after, heq, -⟩
  simp [heq]

/-- No text of a digest is spelled. -/
theorem hexdigest_ne_spelled {n : Nat} {t : PyStr} : hexdigest n ≠ spelledDigest t := by
  have hhex : ∀ k < 16, ch 'x' ≠ ch k.digitChar := by decide
  intro h
  have hmark : ch 'x' ∈ hexdigest n := by simp [h, spelledDigest]
  rcases exists_of_mem_hexDigits (List.mem_reverse.1 hmark) with ⟨m, hm⟩
  exact hhex _ (Nat.mod_lt _ (by decide)) hm

theorem digest_ne_nil (s : PyStr) : digest s ≠ [] := by
  cases hs : knownDigests.lookup s with
  | some n => simp [digest, hs, hexdigest, hexDigits]
  | none => simp [digest, hs, spelledDigest]

/-- A digest consists of the mark and of hexadecimal digits. -/
theorem mem_digest {s : PyStr} {c : PyChar} (h : c ∈ digest s) :
    c = ch 'x' ∨ ∃ m, c = Json.hexDigit m := by
  cases hs : knownDigests.lookup s with
  | some n =>
      simp only [digest, hs] at h
      exact Or.inr (exists_of_mem_hexDigits (List.mem_reverse.1 h))
  | none =>
      simp only [digest, hs, spelledDigest] at h
      rcases List.mem_cons.1 h with rfl | h
      · exact Or.inl rfl
      · rcases List.mem_flatMap.1 h with ⟨d, -, hd⟩
        exact Or.inr (exists_of_mem_hexDigits hd)

theorem encodable_digest (s : PyStr) : PyStr.Encodable (digest s) := by
  intro c hc
  rcases mem_digest hc with rfl | ⟨m, rfl⟩
  · decide
  · exact PyStr.scalar_of_lt (Nat.lt_trans (Json.hexDigit_lt _) (by decide))

theorem digest_injective : Function.Injective digest := by
  have hdistinct : (knownDigests.map Prod.snd).Nodup := by decide +kernel
  have hbound : ∀ p ∈ knownDigests, p.2 < 16 ^ 32 := by decide +kernel
  intro s t h
  simp only [digest] at h
  cases hs : knownDigests.lookup s with
  | some m =>
      cases ht : knownDigests.lookup t with
      | some n =>
          simp only [hs, ht] at h
          have hmod := hexDigits_inj (List.reverse_inj.1 h)
          rw [Nat.mod_eq_of_lt (hbound _ (mem_of_lookup hs)),
            Nat.mod_eq_of_lt (hbound _ (mem_of_lookup ht))] at hmod
          have hst := List.inj_on_of_nodup_map hdistinct (mem_of_lookup hs) (mem_of_lookup ht) hmod
          exact congrArg Prod.fst hst
      | none =>
          simp only [hs, ht] at h
          exact absurd h hexdigest_ne_spelled
  | none =>
      cases ht : knownDigests.lookup t with
      | some n =>
          simp only [hs, ht] at h
          exact absurd h.symm hexdigest_ne_spelled
      | none =>
          simp only [hs, ht] at h
          exact spelledDigest_injective h

/-! ## Settings -/

/-- `xqueue/settings.py` -/
def settings (md5 : PyStr → PyStr) (isPrintable : PyChar → Bool)
    (parseDatetime : PyStr → ParsedDatetime) : Config where
  xqueues := [(py "test-pull", none)]
  maxNumberOfFailures := 3
  submissionProcessingDelay := 60000000
  atomicRequests := false
  md5 := md5
  isPrintable := isPrintable
  parseDatetime := parseDatetime

/-- The settings with the hash above, for text without printable characters beyond ASCII and
no datetime options. -/
def devSettings : Config :=
  settings digest (fun _ => false) (fun _ => .notDatetime)

/-- The same queue with a push grader, as in the settings of the tests. -/
def pushSettings : Config :=
  { devSettings with xqueues := [(py "test-pull", some (py "http://127.0.0.1:12348"))] }

instance instNeZeroSixty : NeZero 60 :=
  ⟨by decide⟩

/-- Minutes after 10:00 on the first of January 2026. -/
def clockAt (minute : Fin 60) : DateTime :=
  ⟨63902858400000000 + minute.val * 60000000, by omega⟩

/-- A storage that keeps every name and addresses a file by its path. -/
def pathStorage : Storage Nat where
  save := fun st path _ => (st, .ok path)
  url := fun _ path => .ok path

/-! ## Requests -/

def postOf (header body : PyStr) (hheader : PyStr.Encodable header) (hbody : PyStr.Encodable body) :
    HttpRequest :=
  HttpRequest.ofPost [(py "xqueue_header", header), (py "xqueue_body", body)]
    (by simp [hheader, hbody]) (py "127.0.0.1")

/-- The request of `XQueueClient.submit_job`. -/
def submitJob (postUrl queueName body : PyStr) (hbody : PyStr.Encodable body) : HttpRequest :=
  postOf (jobHeader postUrl queueName) body (Json.encodable_dumps _) hbody

/-- A job for the pull queue. -/
def jobFor (postUrl : PyStr) : HttpRequest :=
  submitJob postUrl (py "test-pull") (py "answer") (by decide)

/-- A job for the pull queue with uploaded files. -/
def jobWithFiles (postUrl : PyStr) (files : List (PyStr × PyStr))
    (hnames : ∀ f ∈ files, PyStr.Encodable f.1) (hnodup : (files.map Prod.fst).Nodup) : HttpRequest :=
  { jobFor postUrl with
    files := files
    encodable_files := hnames
    nodup_files := hnodup }

/-- The pull of a grader. -/
def pullRequest (queueName : PyStr) : HttpRequest :=
  HttpRequest.ofGet [(py "queue_name", queueName)] (py "127.0.0.1")

/-- The result of a grader that echoes the header of its pull. -/
def resultRequest (submissionId : Nat) (pullkey body : PyStr) (hbody : PyStr.Encodable body) :
    HttpRequest :=
  postOf (extHeader submissionId pullkey) body (Json.encodable_dumps _) hbody

/-- A result for the first submission. -/
def resultWith (pullkey : PyStr) : HttpRequest :=
  resultRequest 1 pullkey (py "graded") (by decide)

/-- The view accepts the request of the client for every queue it has. -/
theorem submitChecks_submitJob {cfg : Config} {postUrl queueName body : PyStr}
    {hbody : PyStr.Encodable body} (hurl : PyStr.Encodable postUrl)
    (hqueue : PyStr.Encodable queueName) (h : cfg.hasQueue queueName = true) :
    submitChecks cfg (submitJob postUrl queueName body hbody) =
      .ok ⟨.str postUrl, queueName, jobHeader postUrl queueName, body⟩ := by
  have hpos := (submitJob postUrl queueName body hbody).nesting_pos
  have hdecode : Json.decode (submitJob postUrl queueName body hbody).nesting
      (jobHeader postUrl queueName) = .ok _ :=
    Json.decode_dumps (plain_jobHeader hurl hqueue) hpos
  have hkey : (py "lms_key" == py "lms_callback_url") = false := by decide
  have hname₁ : (py "queue_name" == py "lms_callback_url") = false := by decide
  have hname₂ : (py "queue_name" == py "lms_key") = false := by decide
  have hget : QueryDict.get? (submitJob postUrl queueName body hbody).post
      (py "xqueue_header") = some (jobHeader postUrl queueName) := rfl
  have hget' : QueryDict.get? (submitJob postUrl queueName body hbody).post
      (py "xqueue_body") = some body := rfl
  have hvalid : isValidRequest cfg (submitJob postUrl queueName body hbody).nesting
      (submitJob postUrl queueName body hbody).post =
        .ok (some ⟨.str postUrl, queueName, jobHeader postUrl queueName, body⟩) := by
    unfold isValidRequest
    rw [hget, hget']
    simp [hdecode, List.lookup_cons, hkey, hname₁, hname₂, Json.pyStr]
  simp only [submitChecks, hvalid, h]
  rfl

/-- The table after one job. -/
def pendingTable : Table :=
  tableAfter devSettings [.submit pathStorage ⟨clockAt 0, clockAt 0, true⟩
    (jobFor (py "/lms/1/problem"))] KeyedTable.empty

/-- A job with a file map that is too long for its column. -/
def jobWithLongName : HttpRequest :=
  jobWithFiles (py "/lms/1/problem") [(longName, py "print(1)")] (by decide +kernel) (by decide)

/-- The table after this job. -/
def spilledTable : Table :=
  tableAfter devSettings [.submit pathStorage ⟨clockAt 0, clockAt 0, true⟩ jobWithLongName]
    KeyedTable.empty

/-- The table after two jobs for different problems, with the push grader. -/
def twoJobs : Table :=
  tableAfter pushSettings [.submit pathStorage ⟨clockAt 0, clockAt 0, true⟩
    (jobFor (py "/lms/1/problem")), .submit pathStorage ⟨clockAt 1, clockAt 1, true⟩
    (jobFor (py "/lms/2/problem"))] KeyedTable.empty

theorem submitChecks_jobFor {postUrl : PyStr} (h : PyStr.Encodable postUrl) :
    submitChecks devSettings (jobFor postUrl) =
      .ok ⟨.str postUrl, py "test-pull", jobHeader postUrl (py "test-pull"), py "answer"⟩ :=
  submitChecks_submitJob h (by decide) (by decide)

end Xqueue
