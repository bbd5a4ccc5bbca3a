import Xqueue.Deployment
import Xqueue.Operations

/-!
# PullKey — only the latest puller can return a result

Every pull of a submission overwrites its key.  The outputs of a run record the pulls, and the
stored key is always the one that the last of them has generated:

* `pullsOf`, `lastPull` : the pulls of a submission, from the outputs;
* `PullLog` : what the rows and the recorded pulls have in common;
* `latest_puller` : which results pass the key check after any run.
-/

namespace Xqueue

open Library
open Library.System

/-! ## The pulls of a run -/

def pullOf (id : Nat) : Output → Option (Submission × Except PyExc HttpResponse)
  | .pulled row response => if row.id = id then some (row, response) else none
  | _ => none

/-- The instances that pulls of the submission have saved, with their replies, oldest first. -/
def pullsOf (id : Nat) (os : List Output) : List (Submission × Except PyExc HttpResponse) :=
  os.filterMap (pullOf id)

def lastPull (id : Nat) (os : List Output) : Option (Submission × Except PyExc HttpResponse) :=
  (pullsOf id os).getLast?

variable {cfg : Config} {os o : List Output} {t t' : Table} {s row : Submission} {id : Nat}
  {response : Except PyExc HttpResponse}

theorem pullsOf_append : pullsOf id (os ++ o) = pullsOf id os ++ pullsOf id o :=
  List.filterMap_append

theorem pullsOf_pulled :
    pullsOf id [.pulled row response] = if row.id = id then [(row, response)] else [] := by
  by_cases hid : row.id = id <;> simp [pullsOf, pullOf, hid]

/-- Outputs that are no pulls record none. -/
theorem pullsOf_eq_nil (h : ∀ row response, .pulled row response ∉ o) : pullsOf id o = [] := by
  rw [pullsOf, List.filterMap_eq_nil_iff]
  intro x hx
  cases x with
  | pulled row response => exact absurd hx (h row response)
  | _ => rfl

theorem mem_pullsOf : (row, response) ∈ pullsOf id os ↔ .pulled row response ∈ os ∧ row.id = id := by
  rw [pullsOf, List.mem_filterMap]
  constructor
  · rintro ⟨x, hx, heq⟩
    cases x with
    | pulled row' response' =>
        simp only [pullOf] at heq
        split at heq
        · cases heq
          exact ⟨hx, by assumption⟩
        · cases heq
    | _ => cases heq
  · rintro ⟨hmem, hid⟩
    exact ⟨_, hmem, by simp [pullOf, hid]⟩

/-! ## The record and the rows -/

/-- The columns of a pull hold what the last pull has saved; none has left them empty. -/
def Agrees (os : List Output) (s : Submission) : Prop :=
  match lastPull s.id os with
  | none => s.pullkey = [] ∧ s.pullTime = none
  | some (row, _) => s.pullkey = row.pullkey ∧ s.pullTime = row.pullTime

/-- What a pull nests in its reply can be read back from it. -/
structure Readable (s : Submission) : Prop where
  id : s.id ≤ maxId
  body : PyStr.Encodable s.xqueueBody
  urls : PyStr.Encodable s.s3Urls

theorem Readable.retire {s : Submission} (h : Readable s) : Readable s.retire :=
  ⟨h.id, h.body, h.urls⟩

theorem Readable.pulled {s : Submission} (h : Readable s) (cfg : Config) (request : HttpRequest)
    (now : DateTime) : Readable (s.pulled cfg request now) :=
  ⟨h.id, h.body, h.urls⟩

/-- A recorded pull: its key is made from its time and the id, and it replied after the save. -/
structure GoodPull (cfg : Config) (t : Table) (row : Submission)
    (response : Except PyExc HttpResponse) : Prop where
  stored : row.id < t.nextKey
  key : ∃ time, row.pullTime = some time ∧ row.pullkey = cfg.md5 (time.str ++ PyStr.ofNat row.id)
  readable : Readable row
  reply : ∃ fetch, response = pullReply fetch row

/-- The first pull was earlier than the second. -/
def Earlier (p q : Submission × Except PyExc HttpResponse) : Prop :=
  ∃ a b, p.1.pullTime = some a ∧ q.1.pullTime = some b ∧ a < b

structure PullLog (cfg : Config) (os : List Output) (t : Table) : Prop where
  agrees : ∀ s ∈ t, Agrees os s
  readable : ∀ s ∈ t, Readable s
  pulls : ∀ row response, .pulled row response ∈ os → GoodPull cfg t row response
  increasing : ∀ id, (pullsOf id os).Pairwise Earlier

theorem GoodPull.mono (h : GoodPull cfg t row response) (hle : t.nextKey ≤ t'.nextKey) :
    GoodPull cfg t' row response :=
  ⟨Nat.lt_of_lt_of_le h.stored hle, h.key, h.readable, h.reply⟩

/-- A change of the rows that records no pull. -/
theorem PullLog.quiet (h : PullLog cfg os t) (ho : ∀ row response, .pulled row response ∉ o)
    (hle : t.nextKey ≤ t'.nextKey) (hrows : ∀ s ∈ t', Agrees os s ∧ Readable s) :
    PullLog cfg (os ++ o) t' := by
  have hpulls : ∀ id, pullsOf id (os ++ o) = pullsOf id os := by
    intro id
    rw [pullsOf_append, pullsOf_eq_nil ho, List.append_nil]
  refine ⟨?_, fun s hs => (hrows s hs).2, ?_, ?_⟩
  · intro s hs
    simpa only [Agrees, lastPull, hpulls] using (hrows s hs).1
  · intro row response hmem
    rcases List.mem_append.1 hmem with hmem | hmem
    · exact (h.pulls row response hmem).mono hle
    · exact absurd hmem (ho row response)
  · intro id
    rw [hpulls]
    exact h.increasing id

/-- No earlier pull was as late as the time in the row. -/
theorem PullLog.earlier (h : PullLog cfg os t) (hs : s ∈ t) {p q : Submission × Except PyExc HttpResponse}
    {time : DateTime} (hp : p ∈ pullsOf s.id os) (hq : q.1.pullTime = some time)
    (hlater : ∀ stored, s.pullTime = some stored → stored < time) : Earlier p q := by
  have hagrees := h.agrees s hs
  unfold Agrees at hagrees
  cases hlast : lastPull s.id os with
  | none =>
      rw [List.getLast?_eq_none_iff.1 hlast] at hp
      cases hp
  | some last =>
      rcases last with ⟨row, response⟩
      rw [hlast] at hagrees
      rcases List.getLast?_eq_some_iff.1 hlast with ⟨before, hpulls⟩
      have hmem : .pulled row response ∈ os := (mem_pullsOf.1 (by rw [hpulls]; simp)).1
      rcases (h.pulls row response hmem).key with ⟨stored, hstored, -⟩
      have hlt := hlater stored (hagrees.2.trans hstored)
      -- the pull is the last one, or earlier than it
      rw [hpulls] at hp
      rcases List.mem_append.1 hp with hp | hp
      · have hpairs := h.increasing s.id
        rw [hpulls, List.pairwise_append] at hpairs
        rcases hpairs.2.2 p hp _ (List.mem_singleton_self _) with ⟨a, b, ha, hb, hab⟩
        rw [hstored] at hb
        cases hb
        exact ⟨a, time, ha, hq, lt_trans hab hlt⟩
      · rw [List.mem_singleton.1 hp]
        exact ⟨stored, time, hstored, hq, hlt⟩

/-! ## Every run keeps the record -/

/-- Only a pull writes the columns of a pull. -/
theorem pullColumns_of_work {task : Task} {env : WorkEnv} {c : Submission}
    (htask : ∀ request, task ≠ .pull request) (h : task.work cfg env s = (os, .ok c)) :
    c.pullkey = s.pullkey ∧ c.pullTime = s.pullTime := by
  cases writes_of_work h with
  | pulled request => exact absurd rfl (htask request)
  | _ => exact ⟨rfl, rfl⟩

theorem readable_of_work {task : Task} {env : WorkEnv} {c : Submission} (hs : Readable s)
    (h : task.work cfg env s = (os, .ok c)) : Readable c := by
  have horigin := origin_of_work h
  have hbody : c.xqueueBody = s.xqueueBody := congrArg Origin.xqueueBody horigin
  have hurls : c.s3Urls = s.s3Urls := congrArg Origin.s3Urls horigin
  exact ⟨(id_of_work h).trans_le hs.id, hbody ▸ hs.body, hurls ▸ hs.urls⟩

/-- A pull takes a row whose lease is over, at a time that is not before its query. -/
theorem later_of_performs {e : Event} {env : WorkEnv} {request : HttpRequest}
    (hdelay : 0 < cfg.submissionProcessingDelay) (hclock : e.readings.Pairwise (· ≤ ·))
    (hp : e.Performs cfg t (.pull request) env s) :
    ∀ stored, s.pullTime = some stored → stored < env.now := by
  intro stored hstored
  cases e with
  | getSubmission pullEnv request' =>
      rcases hp with ⟨-, hnow, queueName, -, hget⟩
      have hfilter := (isAvailable_iff.1 (isAvailable_of_getSingleSubmission hget)).1
      simp only [timeFilter, Submission.time, hstored, decide_eq_true_eq] at hfilter
      have hle : pullEnv.queryTime.micros ≤ pullEnv.pullTime.micros := by
        simpa [Event.readings, DateTime.le_iff] using hclock
      rw [hnow, DateTime.lt_iff]
      have hlt : (stored.micros : Int) < pullEnv.pullTime.micros := by
        calc
          (stored.micros : Int) ≤ pullEnv.queryTime.micros - cfg.submissionProcessingDelay := hfilter
          _ < pullEnv.queryTime.micros := by omega
          _ ≤ pullEnv.pullTime.micros := by omega
      exact Int.ofNat_lt.1 hlt
  | submit storage env' request' => exact hp.elim
  | putResult env' request' =>
      rcases hp with ⟨-, graderReply, htask, -⟩
      cases htask
  | deliverSubmission env' worker => cases hp.1
  | retireFailedSubmissions env' force queueNames => cases hp.1
  | retireOldSubmissions env' queueName retireBefore => cases hp.1

theorem not_pulled_of_work {task : Task} {env : WorkEnv} {result : Except PyExc Submission}
    (h : task.work cfg env s = (o, result)) : ∀ row response, .pulled row response ∉ o := by
  intro row response hmem
  cases emits_of_work h hmem

/-- The save of a pull records it. -/
theorem pullLog_pulled {request : HttpRequest} {env : WorkEnv} {fetch : HttpResult} {now : DateTime}
    (h : PullLog cfg os t) (hs : s ∈ t)
    (hlater : ∀ stored, s.pullTime = some stored → stored < env.now) :
    let c := s.pulled cfg request env.now
    PullLog cfg (os ++ [.pulled c (pullReply fetch c)]) (save now c t) := by
  intro c
  have hwork : (Task.pull request).work cfg env s = ([], .ok c) := by
    rw [Task.work, pull_eq_ok]
  have hid : c.id = s.id := rfl
  refine ⟨?_, ?_, ?_, ?_⟩
  · intro r hr
    -- the pulled row has a new last pull, the others have the one they had
    rcases (mem_save_worked hs hwork).1 hr with rfl | ⟨hr, hne⟩
    · simp [Agrees, lastPull, pullsOf_append, pullsOf_pulled]
    · have hne' : c.id ≠ r.id := fun heq => hne (heq.symm.trans hid)
      simpa [Agrees, lastPull, pullsOf_append, pullsOf_pulled, hne'] using h.agrees r hr
  · intro r hr
    rcases (mem_save_worked hs hwork).1 hr with rfl | ⟨hr, -⟩
    · exact (h.readable s hs).pulled cfg request env.now
    · exact h.readable r hr
  · intro row response hmem
    rcases List.mem_append.1 hmem with hmem | hmem
    · exact (h.pulls row response hmem).mono KeyedTable.le_nextKey_put
    · cases List.mem_singleton.1 hmem
      exact ⟨Nat.lt_of_lt_of_le (t.fresh s hs) KeyedTable.le_nextKey_put, ⟨env.now, rfl, rfl⟩,
        (h.readable s hs).pulled cfg request env.now, fetch, rfl⟩
  · intro id
    rw [pullsOf_append, pullsOf_pulled]
    by_cases hcid : c.id = id
    · subst hcid
      rw [if_pos rfl, List.pairwise_append]
      refine ⟨h.increasing c.id, List.pairwise_singleton _ _, ?_⟩
      intro p hp q hq
      rw [List.mem_singleton.1 hq]
      exact h.earlier hs hp rfl hlater
    · simpa [hcid] using h.increasing id

theorem pullLog_moved {e : Event} {u u' : Table} (hdelay : 0 < cfg.submissionProcessingDelay)
    (hclock : e.readings.Pairwise (· ≤ ·)) (h : PullLog cfg os u)
    (hm : Moved cfg (e.Performs cfg t) u u' o) : PullLog cfg (os ++ o) u' := by
  cases hm with
  | raised hs hp hwork =>
      exact h.quiet (not_pulled_of_work hwork) (Nat.le_refl _)
        (fun r hr => ⟨h.agrees r hr, h.readable r hr⟩)
  | undone => simpa using h
  | @saved task env s c os' fetch now hs hp hwork =>
      by_cases htask : ∃ request, task = .pull request
      · rcases htask with ⟨request, rfl⟩
        rw [Task.work, pull_eq_ok] at hwork
        cases hwork
        exact pullLog_pulled h hs (later_of_performs hdelay hclock hp)
      · have hno : ∀ request, task ≠ .pull request := fun request heq => htask ⟨request, heq⟩
        have hreplies : task.replies fetch c = [] := by
          cases task with
          | pull request => exact absurd rfl (hno request)
          | _ => rfl
        rw [hreplies, List.append_nil]
        refine h.quiet (not_pulled_of_work hwork) KeyedTable.le_nextKey_put ?_
        intro r hr
        rcases (mem_save_worked hs hwork).1 hr with rfl | ⟨hr, -⟩
        · rcases pullColumns_of_work hno hwork with ⟨hkey, htime⟩
          refine ⟨?_, readable_of_work (h.readable s hs) hwork⟩
          rw [Agrees, id_of_work hwork, hkey, htime]
          exact h.agrees s hs
        · exact ⟨h.agrees r hr, h.readable r hr⟩
  | superseded callback =>
      refine h.quiet (by simp) (Nat.le_refl _) ?_
      intro r hr
      rcases mem_invalidate_cases hr with ⟨s, hs, -, rfl⟩ | ⟨hr, -⟩
      · exact ⟨h.agrees s hs, (h.readable s hs).retire⟩
      · exact ⟨h.agrees r hr, h.readable r hr⟩
  | @inserted request valid callback s3Urls s3Keys now hchecks hcallback hurls hid =>
      refine h.quiet (by simp) (Nat.le_succ _) ?_
      intro r hr
      rcases KeyedTable.mem_insert.1 hr with hr | rfl
      · exact ⟨h.agrees r hr, h.readable r hr⟩
      · -- the new id has no pulls yet
        have hnone : pullsOf u.nextKey os = [] := by
          rw [List.eq_nil_iff_forall_not_mem]
          rintro ⟨row, response⟩ hmem
          rcases mem_pullsOf.1 hmem with ⟨hmem, hid⟩
          exact Nat.ne_of_lt (h.pulls row response hmem).stored hid
        rcases submitChecks_eq_ok.1 hchecks with ⟨-, -, hvalid, -⟩
        have hbody := (isValidRequest_eq_some hvalid).2.1
        refine ⟨?_, hid, HttpRequest.encodable_of_post hbody, hurls⟩
        simp [Agrees, lastPull, newSubmission, hnone]

/-- The record of every run under a clock that does not go back. -/
theorem pullLog_of_run {es : List Event} (hdelay : 0 < cfg.submissionProcessingDelay)
    (hclock : (es.flatMap Event.readings).Pairwise (· ≤ ·))
    (h : Run (atomicSystem cfg) Free KeyedTable.empty es os t) : PullLog cfg os t := by
  have heach : ∀ e ∈ es, e.readings.Pairwise (· ≤ ·) :=
    fun e he => (List.pairwise_flatMap.1 hclock).1 e he
  refine moves_invariant (I := PullLog cfg) (h.of_forall_mem heach) ?_ ?_
  · refine ⟨?_, ?_, by simp, by simp [pullsOf]⟩
    · exact fun r hr => absurd hr KeyedTable.not_mem_empty
    · exact fun r hr => absurd hr KeyedTable.not_mem_empty
  · intro _ e he _ _ _ _ hI hm
    exact pullLog_moved hdelay he hI hm

/-! ## The reply of a pull -/

/-- The header that a grader finds in a reply, through both layers of JSON. -/
def replyHeader (response : HttpResponse) : Option PyStr :=
  match (Json.loads response.body).bind (Json.get? (py "content")) with
  | some (.str payload) =>
      match (Json.loads payload).bind (Json.get? (py "xqueue_header")) with
      | some (.str header) => some header
      | _ => none
  | _ => none

/-- A successful reply carries the payload of the row, with its own file map or a fetched one. -/
theorem pullReply_eq_success {fetch : HttpResult} {reply : HttpResponse}
    (h : pullReply fetch row = .ok reply) (hsuccess : reply.isSuccess = true) :
    ∃ files, reply = .reply true (.str (pullPayload row files)) ∧
      (files = row.s3Urls ∨ ∃ v, files = Json.dumps v) := by
  have hfiles : ∀ {text files : PyStr}, externalFiles text = .ok files → ∃ v, files = Json.dumps v := by
    intro text files hext
    unfold externalFiles at hext
    split at hext
    · cases hext
    · split at hext
      · cases hext
      · cases hext
        exact ⟨_, rfl⟩
  rcases reply with ⟨_ | _, content⟩ | _
  · cases hsuccess
  · rcases pullReply_eq_success_iff.1 h with ⟨files, hserved, rfl⟩
    cases hserved with
    | inline => exact ⟨row.s3Urls, rfl, Or.inl rfl⟩
    | fetched _ _ hext => exact ⟨files, rfl, Or.inr (hfiles hext)⟩
  · cases hsuccess

theorem replyHeader_pullPayload {files : PyStr} (hbody : PyStr.Encodable row.xqueueBody)
    (hfiles : PyStr.Encodable files) :
    replyHeader (.reply true (.str (pullPayload row files))) = some (extHeader row.id row.pullkey) := by
  have hpayload : Json.loads (pullPayload row files) = _ := Json.loads_dumps (plain_pullPayload hbody hfiles)
  have hreply := HttpResponse.loads_body true
    (Json.Plain.str (Json.encodable_dumps _) : Json.Plain (.str (pullPayload row files)))
  have hcontent : (py "content" == py "return_code") = false := by decide
  simp [replyHeader, hreply, Json.get?, List.lookup_cons, hcontent, hpayload]

/-! ## Which results are accepted -/

/-- A key that does not belong to the latest pull of the submission: the key of an earlier pull
of it, the key of a pull of another submission, and any key when it was never pulled. -/
inductive ForeignKey (os : List Output) (s : Submission) : Json → Prop
  | older {row : Submission} {response : Except PyExc HttpResponse} :
      (row, response) ∈ (pullsOf s.id os).dropLast → ForeignKey os s (.str row.pullkey)
  | other {row : Submission} {response : Except PyExc HttpResponse} :
      .pulled row response ∈ os → row.id ≠ s.id → ForeignKey os s (.str row.pullkey)
  | neverPulled (key : Json) : pullsOf s.id os = [] → ForeignKey os s key

/-- The request is a POST of a grader that has logged in. -/
def HttpRequest.IsGraderPost (request : HttpRequest) : Prop :=
  request.isAuthenticated = true ∧ request.method = py "POST"

/-- What happens to the results for the submission after a run with the outputs `os`. -/
structure LatestPuller (cfg : Config) (os : List Output) (t : Table) (s : Submission) : Prop where
  /-- A result passes the key check exactly with the key of the latest pull. -/
  accepted_iff : ∀ request key body, request.IsGraderPost →
    isValidReply request.nesting request.post = .ok (some ⟨s.id, key, body⟩) →
      (putResultChecks request t = .ok (s, body) ↔
        ∃ row response, lastPull s.id os = some (row, response) ∧ key = .str row.pullkey)
  /-- The header that the latest pull has replied passes verbatim. -/
  echo : ∀ row reply, lastPull s.id os = some (row, .ok reply) → reply.isSuccess = true →
    ∃ header, replyHeader reply = some header ∧ ∀ request body, request.IsGraderPost →
      QueryDict.get? request.post (py "xqueue_header") = some header →
      QueryDict.get? request.post (py "xqueue_body") = some body →
        putResultChecks request t = .ok (s, body)
  /-- Any other key is rejected: nothing is posted, and the table stays. -/
  rejected : ∀ request key body, isValidReply request.nesting request.post = .ok (some ⟨s.id, key, body⟩) →
    ForeignKey os s key → ∀ env,
      (putResult cfg env request t).outputs = [] ∧ (putResult cfg env request t).table = t

/-- The key check compares with the key of the latest pull. -/
theorem PullLog.keyMatches_iff (h : PullLog cfg os t) (hne : ∀ seed, cfg.md5 seed ≠ []) (hs : s ∈ t)
    (key : Json) : keyMatches key s = true ↔
      ∃ row response, lastPull s.id os = some (row, response) ∧ key = .str row.pullkey := by
  have hagrees := h.agrees s hs
  unfold Agrees at hagrees
  cases hlast : lastPull s.id os with
  | none =>
      rw [hlast] at hagrees
      simp [keyMatches, hagrees.1]
  | some last =>
      rcases last with ⟨row, response⟩
      rw [hlast] at hagrees
      rcases List.getLast?_eq_some_iff.1 hlast with ⟨before, hpulls⟩
      have hmem : .pulled row response ∈ os := (mem_pullsOf.1 (by rw [hpulls]; simp)).1
      rcases (h.pulls row response hmem).key with ⟨time, -, hkey⟩
      -- a digest is not empty, so the first half of the check passes
      have hnil : s.pullkey ≠ [] := by
        rw [hagrees.1, hkey]
        exact hne _
      simp only [keyMatches, Bool.and_eq_true, decide_eq_true_eq, Json.isStr_iff]
      rw [hagrees.1] at hnil ⊢
      simp [hnil]

/-- No foreign key is the key of the latest pull. -/
theorem PullLog.ne_of_foreignKey (h : PullLog cfg os t) (hinj : Function.Injective cfg.md5)
    {key : Json} (hkey : ForeignKey os s key)
    (hlast : lastPull s.id os = some (row, response)) : key ≠ .str row.pullkey := by
  rcases List.getLast?_eq_some_iff.1 hlast with ⟨before, hpulls⟩
  have hmem : .pulled row response ∈ os ∧ row.id = s.id := mem_pullsOf.1 (by rw [hpulls]; simp)
  rcases (h.pulls row response hmem.1).key with ⟨time, htime, hseed⟩
  -- equal keys have equal seeds, so equal times and equal ids
  have hsame : ∀ {other : Submission} {r : Except PyExc HttpResponse}, .pulled other r ∈ os →
      other.pullkey = row.pullkey → other.pullTime = some time ∧ other.id = s.id := by
    intro other r hother heq
    rcases (h.pulls other r hother).key with ⟨time', htime', hseed'⟩
    rw [hseed, hseed'] at heq
    rcases DateTime.str_append_inj (hinj heq) with ⟨rfl, hid⟩
    exact ⟨htime', hid.trans hmem.2⟩
  cases hkey with
  | @older old r hold =>
      rw [hpulls, List.dropLast_concat] at hold
      intro heq
      have holdmem := (mem_pullsOf.1 (show (old, r) ∈ pullsOf s.id os by rw [hpulls]; simp [hold])).1
      rcases hsame holdmem (Json.str.inj heq) with ⟨holdtime, -⟩
      have hpairs := h.increasing s.id
      rw [hpulls, List.pairwise_append] at hpairs
      rcases hpairs.2.2 _ hold _ (List.mem_singleton_self _) with ⟨a, b, ha, hb, hab⟩
      -- the pull times of one submission increase, so an older one cannot be the last
      rw [holdtime] at ha
      rw [htime] at hb
      cases ha
      cases hb
      exact absurd hab (lt_irrefl _)
  | @other row' r hother hne =>
      intro heq
      exact hne (hsame hother (Json.str.inj heq)).2
  | neverPulled _ hnone =>
      rw [hnone] at hpulls
      simp at hpulls

/-- A request that fails the checks changes nothing. -/
theorem putResult_of_not_ok {request : HttpRequest}
    (h : ∀ s body, putResultChecks request t ≠ .ok (s, body)) (env : WorkEnv) :
    (putResult cfg env request t).outputs = [] ∧ (putResult cfg env request t).table = t := by
  rcases hchecks : putResultChecks request t with response | ⟨s, body⟩
  · simp [putResult, hchecks]
  · exact absurd hchecks (h s body)

/-- After every run a result for a stored submission is accepted exactly if it carries the key
of the latest pull of the submission. -/
theorem latest_puller {es : List Event} (hinj : Function.Injective cfg.md5)
    (hmd5 : ∀ seed, cfg.md5 seed ≠ [] ∧ PyStr.Encodable (cfg.md5 seed))
    (hdelay : 0 < cfg.submissionProcessingDelay)
    (hclock : (es.flatMap Event.readings).Pairwise (· ≤ ·))
    (h : Run (atomicSystem cfg) Free KeyedTable.empty es os t) :
    ∀ s ∈ t, LatestPuller cfg os t s := by
  intro s hs
  have hlog := pullLog_of_run hdelay hclock h
  have hmatches := hlog.keyMatches_iff (fun seed => (hmd5 seed).1) hs
  have haccepted : ∀ request key body, request.IsGraderPost →
      isValidReply request.nesting request.post = .ok (some ⟨s.id, key, body⟩) → keyMatches key s = true →
        putResultChecks request t = .ok (s, body) := by
    intro request key body hpost hvalid hkey
    exact putResultChecks_eq_ok.2 ⟨hpost.1, hpost.2, hs, _, hvalid, rfl, hkey, rfl⟩
  refine ⟨?_, ?_, ?_⟩
  · intro request key body hpost hvalid
    rw [← hmatches key]
    constructor
    · intro hchecks
      rcases putResultChecks_eq_ok.1 hchecks with ⟨-, -, -, valid, hvalid', -, hkey, -⟩
      rw [hvalid] at hvalid'
      cases hvalid'
      exact hkey
    · exact haccepted request key body hpost hvalid
  · intro row reply hlast hsuccess
    rcases List.getLast?_eq_some_iff.1 hlast with ⟨before, hpulls⟩
    have hmem : .pulled row (.ok reply) ∈ os ∧ row.id = s.id :=
      mem_pullsOf.1 (by rw [hpulls]; simp)
    have hgood := hlog.pulls row _ hmem.1
    rcases hgood.reply with ⟨fetch, hreply⟩
    rcases pullReply_eq_success hreply.symm hsuccess with ⟨files, rfl, hfiles⟩
    -- both layers of the reply decode, because every text in them can be encoded
    have henc : PyStr.Encodable files := by
      rcases hfiles with rfl | ⟨v, rfl⟩
      · exact hgood.readable.urls
      · exact Json.encodable_dumps v
    refine ⟨_, replyHeader_pullPayload hgood.readable.body henc, ?_⟩
    intro request body hpost hheader hbody
    rcases hgood.key with ⟨time, -, hkey⟩
    have hkeyenc : PyStr.Encodable row.pullkey := by
      rw [hkey]
      exact (hmd5 _).2
    have hvalid := isValidReply_extHeader request.nesting_pos hgood.readable.id hheader hbody hkeyenc
    rw [hmem.2] at hvalid
    exact haccepted request _ body hpost hvalid ((hmatches _).2 ⟨row, _, hlast, rfl⟩)
  · intro request key body hvalid hforeign env
    refine putResult_of_not_ok ?_ env
    intro s' body' hchecks
    rcases putResultChecks_eq_ok.1 hchecks with ⟨-, -, hs', valid, hvalid', hid, hkey, -⟩
    rw [hvalid] at hvalid'
    cases hvalid'
    have heq : s' = s := KeyedTable.eq_of_key_eq hs' hs (Int.ofNat_inj.1 hid)
    subst heq
    rcases (hmatches key).1 hkey with ⟨row, response, hlast, hstr⟩
    exact hlog.ne_of_foreignKey hinj hforeign hlast hstr

/-- A submission is pulled, its lease runs out, and another grader pulls it. -/
def pulledTwice : List Event :=
  [.submit pathStorage ⟨clockAt 0, clockAt 0, true⟩ (jobFor (py "/lms/1/problem")),
    .getSubmission ⟨.insertion, clockAt 1, clockAt 1, .timeout⟩ (pullRequest (py "test-pull")),
    .getSubmission ⟨.insertion, clockAt 3, clockAt 3, .timeout⟩ (pullRequest (py "test-pull"))]

theorem pulledTwice_runs :
    ((atomicSystem devSettings).exec KeyedTable.empty pulledTwice).isSome := by
  decide +kernel

/-- The two keys; the result of the second grader alone is accepted. -/
theorem latest_puller_pulledTwice :
    let run := ((atomicSystem devSettings).exec KeyedTable.empty pulledTwice).get pulledTwice_runs
    (∀ s ∈ run.1, LatestPuller devSettings run.2 run.1 s) ∧
      (pullsOf 1 run.2).map (fun p => p.1.pullkey) =
        [py "eaaa7868ba5da1c0b5be0b5b4fc824e9", py "cb8fb81c584faf0ce9c4685757296712"] :=
  ⟨latest_puller digest_injective (fun seed => ⟨digest_ne_nil seed, encodable_digest seed⟩)
    (by decide) (by decide +kernel) (run_get pulledTwice_runs), by decide +kernel⟩

end Xqueue
