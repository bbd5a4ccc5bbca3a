import Xqueue.Library.Drain
import Xqueue.GraderFiles

/-!
# QueueLength — the queue length predicts the pulls

A grader asks for the length of a queue, or a submit request is answered with it; then graders pull
from the queue, and nobody else works on it.

* `Meanwhile` : no pull lease of the queue that was active expires until a clock reading;
* `PullsInTurn` : pulls that follow one another on one queue, whatever happens to other queues;
* `Predicted` : `n` pulls hand out the rows that the length counts, in the order of their arrival,
  each lowers the length by one, and the queue is empty after them;
* `queue_length_predicts_iff` : this is so exactly if the file map of every row counted can be read, and
  every text that is fetched for one is a file dictionary;
* `marked_name_undelivered` : it is not so if the name of a file contains the text that a pull looks for.
-/

namespace Xqueue

open Library

variable {cfg : Config} {queueName : PyStr} {now time : DateTime} {t u : Table} {s : Submission}

/-! ## The rows that the length counts -/

def available (cfg : Config) (now : DateTime) (queueName : PyStr) (t : Table) : List Submission :=
  t.rows.filter (isAvailable cfg now .pullTime queueName)

theorem mem_available : s ∈ available cfg now queueName t ↔
    s ∈ t ∧ isAvailable cfg now .pullTime queueName s = true :=
  List.mem_filter

theorem getQueueLength_eq :
    getQueueLength cfg now queueName t = (available cfg now queueName t).length :=
  List.countP_eq_length_filter

/-- The rows of the queue are the same in both tables. -/
def SameQueue (queueName : PyStr) (t u : Table) : Prop :=
  ∀ r : Submission, r.queueName = queueName → (r ∈ t ↔ r ∈ u)

/-- From `now` to `time`, no pull lease of the queue that was active has expired. -/
structure Meanwhile (cfg : Config) (queueName : PyStr) (now : DateTime) (t : Table) (time : DateTime) :
    Prop where
  le : now ≤ time
  leases : ∀ r ∈ t, r.queueName = queueName → timeFilter cfg now .pullTime r = false →
    timeFilter cfg time .pullTime r = false

/-- A lease that is over stays over. -/
theorem timeFilter_mono {timeField : TimeField} (hle : now ≤ time)
    (h : timeFilter cfg now timeField s = true) : timeFilter cfg time timeField s = true := by
  have hmicros := DateTime.le_iff.1 hle
  unfold timeFilter at h ⊢
  split
  · rfl
  · rename_i lease hlease
    simp only [hlease, decide_eq_true_eq] at h ⊢
    omega

namespace Meanwhile

theorem isAvailable_eq (h : Meanwhile cfg queueName now t time) (hs : s ∈ t) :
    isAvailable cfg time .pullTime queueName s = isAvailable cfg now .pullTime queueName s := by
  by_cases hqueue : s.queueName = queueName
  · have hfilter : timeFilter cfg time .pullTime s = timeFilter cfg now .pullTime s := by
      cases hnow : timeFilter cfg now .pullTime s with
      | true => exact timeFilter_mono h.le hnow
      | false => exact h.leases s hs hqueue hnow
    simp only [isAvailable, hfilter]
  · have hother : (s.queueName == queueName) = false := by simpa using hqueue
    simp only [isAvailable, hother, Bool.and_false, Bool.false_and]

/-- The same from a later reading on, with rows that are leased at the end or were there before. -/
theorem later {now' : DateTime} (h : Meanwhile cfg queueName now t time) (hle : now ≤ now')
    (hle' : now' ≤ time)
    (hrows : ∀ r ∈ u, r.queueName = queueName → r ∈ t ∨ timeFilter cfg time .pullTime r = false) :
    Meanwhile cfg queueName now' u time := by
  refine ⟨hle', ?_⟩
  intro r hr hqueue hactive
  rcases hrows r hr hqueue with hr | hleased
  · refine h.leases r hr hqueue ?_
    -- a lease that is over at the first reading is over at the second one
    by_contra hover
    have := timeFilter_mono hle (by simpa using hover)
    rw [hactive] at this
    cases this
  · exact hleased

/-- The rows counted are the same, up to their order, at both readings. -/
theorem available_perm (h : Meanwhile cfg queueName now t time) (hsame : SameQueue queueName t u) :
    (available cfg now queueName t).Perm (available cfg time queueName u) := by
  have hnodup : ∀ v : Table, v.rows.Nodup := fun v => v.nodup.of_map
  refine (List.perm_ext_iff_of_nodup ((hnodup t).filter _) ((hnodup u).filter _)).2 ?_
  intro r
  show r ∈ available cfg now queueName t ↔ r ∈ available cfg time queueName u
  rw [mem_available, mem_available]
  constructor
  · rintro ⟨hr, hav⟩
    exact ⟨(hsame r (isAvailable_iff.1 hav).2.1).1 hr, by rw [h.isAvailable_eq hr, hav]⟩
  · rintro ⟨hr, hav⟩
    have hr' := (hsame r (isAvailable_iff.1 hav).2.1).2 hr
    exact ⟨hr', by rw [← h.isAvailable_eq hr', hav]⟩

theorem getQueueLength_eq (h : Meanwhile cfg queueName now t time) (hsame : SameQueue queueName t u) :
    getQueueLength cfg time queueName u = (available cfg now queueName t).length := by
  rw [Xqueue.getQueueLength_eq, (h.available_perm hsame).length_eq]

end Meanwhile

/-! ## The file map of a row -/

/-- The stored text decodes, and if it mentions the marker, the marker is a key. -/
def Submission.ReadableFiles (s : Submission) : Prop :=
  ∃ urls, s.decodedUrls = .ok urls ∧
    (urlMarker <:+: s.s3Urls → ∃ url, subscript urlMarker urls = .ok url)

/-- If the row points to a file dictionary, the fetch for it succeeds. -/
def Submission.Fetches (s : Submission) (fetch : HttpResult) : Prop :=
  ∀ url, s.PointsTo url → ∃ text, fetch = .response 200 text

/-- What a successful fetch brings for the row is a file dictionary. -/
def Submission.BringsFiles (s : Submission) (fetch : HttpResult) : Prop :=
  ∀ url text, s.PointsTo url → fetch = .response 200 text → ∃ files, externalFiles text = .ok files

theorem readableFiles_of_filesServed {fetch : HttpResult} {files : PyStr}
    (h : FilesServed fetch s files) : s.ReadableFiles := by
  cases h with
  | inline hmarker hurls => exact ⟨_, hurls, fun h => absurd h hmarker⟩
  | fetched hpoints hfetch hfiles =>
      rcases hpoints with ⟨-, urls, hurls, hurl⟩
      exact ⟨urls, hurls, fun _ => ⟨_, hurl⟩⟩

theorem bringsFiles_of_filesServed {fetch : HttpResult} {files : PyStr}
    (h : FilesServed fetch s files) : s.BringsFiles fetch := by
  intro url text hpoints hfetch
  cases h with
  | inline hmarker _ => exact absurd hpoints.1 hmarker
  | fetched _ hfetch' hfiles =>
      rw [hfetch] at hfetch'
      cases hfetch'
      exact ⟨files, hfiles⟩

theorem exists_filesServed {fetch : HttpResult} (h : s.ReadableFiles) (hfetch : s.Fetches fetch)
    (hbrings : s.BringsFiles fetch) : ∃ files, FilesServed fetch s files := by
  rcases h with ⟨urls, hurls, hmap⟩
  by_cases hmarker : urlMarker <:+: s.s3Urls
  · rcases hmap hmarker with ⟨url, hurl⟩
    have hpoints : s.PointsTo url := ⟨hmarker, urls, hurls, hurl⟩
    rcases hfetch url hpoints with ⟨text, hresponse⟩
    rcases hbrings url text hpoints hresponse with ⟨files, hfiles⟩
    exact ⟨files, FilesServed.fetched hpoints hresponse hfiles⟩
  · exact ⟨s.s3Urls, FilesServed.inline hmarker hurls⟩

/-! ## One pull -/

/-- A call of `get_submission`, with the table that it finds. -/
structure PullCall where
  found : Table
  request : HttpRequest
  env : PullEnv

namespace PullCall

variable {call : PullCall}

def ended (cfg : Config) (call : PullCall) : Ended HttpResponse :=
  getSubmission cfg call.env call.request call.found

/-- The row as the call saves it. -/
def saved (cfg : Config) (call : PullCall) (s : Submission) : Submission :=
  s.pulled cfg call.request call.env.pullTime

/-- The reply hands out the row `s` of the table, with its files. -/
def Serves (cfg : Config) (call : PullCall) (s : Submission) : Prop :=
  s ∈ call.found ∧ ∃ files, FilesServed call.env.fetch (call.saved cfg s) files ∧
    (call.ended cfg).result = .ok (.reply true (.str (pullPayload (call.saved cfg s) files)))

/-- The fetch for the row that the call selects succeeds. -/
def FetchSucceeds (cfg : Config) (queueName : PyStr) (call : PullCall) : Prop :=
  ∀ s, getSingleUnretiredSubmission cfg call.env.plan call.env.queryTime queueName call.found = some s →
    s.Fetches call.env.fetch

/-- What it brings for this row is a file dictionary. -/
def BringsFiles (cfg : Config) (queueName : PyStr) (call : PullCall) : Prop :=
  ∀ s, getSingleUnretiredSubmission cfg call.env.plan call.env.queryTime queueName call.found = some s →
    s.BringsFiles call.env.fetch

/-- The call finds nothing to hand out. -/
def FindsEmpty (cfg : Config) (queueName : PyStr) (call : PullCall) : Prop :=
  call.ended cfg = ⟨call.found, [], .ok (.failure (py "Queue '" ++ queueName ++ py "' is empty"))⟩

theorem findsEmpty_of_available (hchecks : getSubmissionChecks cfg call.request = .ok queueName)
    (h : available cfg call.env.queryTime queueName call.found = []) : call.FindsEmpty cfg queueName := by
  have hnone : getSingleUnretiredSubmission cfg call.env.plan call.env.queryTime queueName call.found =
      none :=
    firstByArrivalTime_eq_none.2 h
  simp only [FindsEmpty, ended, getSubmission, hchecks, hnone]

/-- A pull from a queue with rows hands out one that has arrived first, and saves it. -/
theorem serves_of_available (hchecks : getSubmissionChecks cfg call.request = .ok queueName)
    (hne : available cfg call.env.queryTime queueName call.found ≠ [])
    (hread : ∀ r ∈ available cfg call.env.queryTime queueName call.found, r.ReadableFiles)
    (hfetch : call.FetchSucceeds cfg queueName) (hbrings : call.BringsFiles cfg queueName) :
    ∃ s ∈ available cfg call.env.queryTime queueName call.found,
      (∀ r ∈ available cfg call.env.queryTime queueName call.found, s.arrivalTime ≤ r.arrivalTime) ∧
      call.Serves cfg s ∧
      (call.ended cfg).table = save call.env.pullTime (call.saved cfg s) call.found := by
  cases hget : getSingleUnretiredSubmission cfg call.env.plan call.env.queryTime queueName call.found with
  | none => exact absurd (firstByArrivalTime_eq_none.1 hget) hne
  | some s =>
      have hs := mem_of_getSingleSubmission hget
      have hav := mem_available.2 ⟨hs, isAvailable_of_getSingleSubmission hget⟩
      have hle : ∀ r ∈ available cfg call.env.queryTime queueName call.found,
          s.arrivalTime ≤ r.arrivalTime :=
        fun r hr => firstByArrivalTime_le hget hr
      -- the row is saved with the same file map
      have hreadable : (call.saved cfg s).ReadableFiles := hread s hav
      have hfetches : (call.saved cfg s).Fetches call.env.fetch := hfetch s hget
      have hfiles : (call.saved cfg s).BringsFiles call.env.fetch := hbrings s hget
      rcases exists_filesServed hreadable hfetches hfiles with ⟨files, hserved⟩
      have hreply : pullReply call.env.fetch (call.saved cfg s) =
          .ok (.reply true (.str (pullPayload (call.saved cfg s) files))) :=
        pullReply_eq_success_iff.2 ⟨files, hserved, rfl⟩
      have hended : call.ended cfg =
          servePull cfg call.env.fetch call.env.pullTime (call.saved cfg s) call.found := by
        simp only [ended, getSubmission, hchecks, hget, pull_eq_ok, saved]
      refine ⟨s, hav, hle, ⟨hs, files, hserved, ?_⟩, ?_⟩
      · rw [hended, result_servePull, hreply]
      · rw [hended, servePull, hreply]

/-- A call that hands out a row has fetched a file dictionary, if it has fetched anything. -/
theorem bringsFiles_of_serves (hchecks : getSubmissionChecks cfg call.request = .ok queueName)
    (h : call.Serves cfg s) : call.BringsFiles cfg queueName := by
  intro r hget
  rcases h with ⟨-, files, -, hresult⟩
  have hended : call.ended cfg =
      servePull cfg call.env.fetch call.env.pullTime (call.saved cfg r) call.found := by
    simp only [ended, getSubmission, hchecks, hget, pull_eq_ok, saved]
  rw [hended, result_servePull] at hresult
  rcases pullReply_eq_success_iff.1 hresult with ⟨files', hserved, -⟩
  -- the row is saved with the same file map
  have hbrings : (call.saved cfg r).BringsFiles call.env.fetch := bringsFiles_of_filesServed hserved
  exact hbrings

end PullCall

/-! ## Pulls in turn -/

/-- The calls pull from the queue one after the other.  Between two of them other queues may change. -/
inductive PullsInTurn (cfg : Config) (queueName : PyStr) : Table → List PullCall → Prop
  | nil (t : Table) : PullsInTurn cfg queueName t []
  | cons {t : Table} {call : PullCall} {calls : List PullCall} : SameQueue queueName t call.found →
      getSubmissionChecks cfg call.request = .ok queueName →
      call.env.queryTime ≤ call.env.pullTime →
      PullsInTurn cfg queueName (call.ended cfg).table calls →
        PullsInTurn cfg queueName t (call :: calls)

theorem PullsInTurn.checks {calls : List PullCall} (h : PullsInTurn cfg queueName t calls) :
    ∀ call ∈ calls, getSubmissionChecks cfg call.request = .ok queueName := by
  induction h with
  | nil => simp
  | cons _ hchecks _ _ ih => exact List.forall_mem_cons.2 ⟨hchecks, ih⟩

/-- The reading is taken after a pull and before its lease expires. -/
def DuringLease (cfg : Config) (pullTime time : DateTime) : Prop :=
  pullTime ≤ time ∧ (time.micros : Int) < pullTime.micros + cfg.submissionProcessingDelay

/-- The clock readings of the calls: no lease that was active at first expires, and none that a call
has taken. -/
structure InWindow (cfg : Config) (queueName : PyStr) (now : DateTime) (t : Table)
    (calls : List PullCall) : Prop where
  meanwhile : ∀ call ∈ calls, Meanwhile cfg queueName now t call.env.queryTime
  within : calls.Pairwise (fun c d => DuringLease cfg c.env.pullTime d.env.queryTime)

/-- The first `n` calls hand out the rows `rows`, which are all that the length counts at first. -/
structure Predicted (cfg : Config) (queueName : PyStr) (now : DateTime) (t : Table) (n : Nat)
    (calls : List PullCall) (rows : List Submission) : Prop where
  served : List.Forall₂ (PullCall.Serves cfg) (calls.take n) rows
  drains : Drains Submission.arrivalTime (available cfg now queueName t) rows []
  /-- The length that a call finds. -/
  before : ∀ calls₁ call calls₂, calls = calls₁ ++ call :: calls₂ →
    getQueueLength cfg call.env.queryTime queueName call.found = n - calls₁.length
  /-- The length that a call leaves, at any time within the window. -/
  after : ∀ calls₁ call calls₂, calls = calls₁ ++ call :: calls₂ → calls₁.length < n →
    ∀ time, Meanwhile cfg queueName now t time →
      (∀ c ∈ calls₁ ++ [call], DuringLease cfg c.env.pullTime time) →
        getQueueLength cfg time queueName (call.ended cfg).table = n - (calls₁.length + 1)
  empty : ∀ call ∈ calls.drop n, call.FindsEmpty cfg queueName

/-- The lease of a pull is active until it expires. -/
theorem timeFilter_of_duringLease {pullTime : DateTime} (h : DuringLease cfg pullTime time)
    (hs : s.pullTime = some pullTime) : timeFilter cfg time .pullTime s = false := by
  have hlt := h.2
  simp only [timeFilter, Submission.time, hs, decide_eq_false_iff_not]
  omega

theorem SameQueue.refl (queueName : PyStr) (t : Table) : SameQueue queueName t t :=
  fun _ _ => Iff.rfl

section Call

variable {call : PullCall}

/-- The rows of the queue after a pull are leased, or were there before. -/
theorem Meanwhile.afterCall (h : Meanwhile cfg queueName now t time)
    (hquery : Meanwhile cfg queueName now t call.env.queryTime) (hsame : SameQueue queueName t call.found)
    (hclock : call.env.queryTime ≤ call.env.pullTime) (hlease : DuringLease cfg call.env.pullTime time)
    (hs : s ∈ call.found) (htable : (call.ended cfg).table =
      save call.env.pullTime (call.saved cfg s) call.found) :
    Meanwhile cfg queueName call.env.queryTime (call.ended cfg).table time := by
  refine h.later hquery.le (le_trans hclock hlease.1) ?_
  intro r hr hqueue
  have hid : (call.saved cfg s).id = s.id := rfl
  rw [htable] at hr
  rcases (mem_save_of_mem hs hid).1 hr with rfl | ⟨hr, -⟩
  · exact Or.inr (timeFilter_of_duringLease hlease rfl)
  · exact Or.inl ((hsame r hqueue).2 hr)

/-- What a pull leaves of the rows counted. -/
theorem available_perm_afterCall (hdelay : 0 < cfg.submissionProcessingDelay)
    (hclock : call.env.queryTime ≤ call.env.pullTime)
    (hs : s ∈ available cfg call.env.queryTime queueName call.found)
    (htable : (call.ended cfg).table = save call.env.pullTime (call.saved cfg s) call.found) :
    (available cfg call.env.queryTime queueName call.found).Perm
      (s :: available cfg call.env.queryTime queueName (call.ended cfg).table) := by
  rcases mem_available.1 hs with ⟨hs, hav⟩
  have hleased : isAvailable cfg call.env.queryTime .pullTime queueName (call.saved cfg s) = false := by
    have hmicros := DateTime.le_iff.1 hclock
    have hfilter : timeFilter cfg call.env.queryTime .pullTime (call.saved cfg s) = false := by
      simp only [timeFilter, Submission.time, PullCall.saved, Submission.pulled,
        decide_eq_false_iff_not]
      omega
    simp only [isAvailable, hfilter, Bool.false_and]
  rw [htable]
  exact filter_save_perm hs rfl hav hleased fun _ _ _ => rfl

end Call

theorem predicted_nil (hnone : available cfg now queueName t = []) :
    Predicted cfg queueName now t 0 [] [] := by
  refine ⟨List.Forall₂.nil, ?_, ?_, ?_, by simp⟩
  · rw [hnone]
    exact Drains.nil []
  · intro calls₁ call calls₂ hcalls
    simp at hcalls
  · intro calls₁ call calls₂ hcalls
    simp at hcalls

/-- A call on an empty queue, and then the others. -/
theorem Predicted.cons_empty {call : PullCall} {calls : List PullCall} {rows : List Submission}
    {now' : DateTime} (h : Predicted cfg queueName now' u 0 calls rows)
    (hnone : available cfg now queueName t = [])
    (hfound : available cfg call.env.queryTime queueName call.found = [])
    (hempty : call.FindsEmpty cfg queueName) : Predicted cfg queueName now t 0 (call :: calls) [] := by
  refine ⟨List.Forall₂.nil, ?_, ?_, by simp, ?_⟩
  · rw [hnone]
    exact Drains.nil []
  · rintro (_ | ⟨c, calls₁⟩) call' calls₂ hcalls
    · cases hcalls
      rw [getQueueLength_eq, hfound]
      rfl
    · cases hcalls
      simpa using h.before calls₁ call' calls₂ rfl
  · intro c hc
    rcases List.mem_cons.1 hc with rfl | hc
    · exact hempty
    · exact h.empty c hc

/-- A call that hands out a row `s`, and then the others. -/
theorem Predicted.cons_served {call : PullCall} {calls : List PullCall} {rows : List Submission}
    {n : Nat} {now' : DateTime} (h : Predicted cfg queueName now' (call.ended cfg).table n calls rows)
    (hn : (available cfg now' queueName (call.ended cfg).table).length = n)
    (hserves : call.Serves cfg s) (hle : ∀ r ∈ available cfg now queueName t, s.arrivalTime ≤ r.arrivalTime)
    (hleft : (available cfg now queueName t).Perm
      (s :: available cfg now' queueName (call.ended cfg).table))
    (hfound : getQueueLength cfg call.env.queryTime queueName call.found = n + 1)
    (hlater : ∀ time, Meanwhile cfg queueName now t time → DuringLease cfg call.env.pullTime time →
      Meanwhile cfg queueName now' (call.ended cfg).table time) :
    Predicted cfg queueName now t (n + 1) (call :: calls) (s :: rows) := by
  refine ⟨List.Forall₂.cons hserves h.served, Drains.cons hle hleft h.drains, ?_, ?_, h.empty⟩
  · rintro (_ | ⟨c, calls₁⟩) call' calls₂ hcalls
    · cases hcalls
      exact hfound
    · cases hcalls
      rw [h.before calls₁ call' calls₂ rfl, List.length_cons, Nat.add_sub_add_right]
  · rintro (_ | ⟨c, calls₁⟩) call' calls₂ hcalls hlt time hmean hduring
    · cases hcalls
      have hmean' := hlater time hmean (hduring call (by simp))
      rw [hmean'.getQueueLength_eq (SameQueue.refl _ _), hn]
      rfl
    · cases hcalls
      have hmean' := hlater time hmean (hduring call (by simp))
      rw [h.after calls₁ call' calls₂ rfl (by simpa using hlt) time hmean'
        (fun c hc => hduring c (List.mem_cons_of_mem call hc)), List.length_cons, Nat.add_sub_add_right]

/-- As many calls as there are rows counted, or more, hand these rows out and then find the queue
empty. -/
theorem predicted_of_calls (hdelay : 0 < cfg.submissionProcessingDelay) {calls : List PullCall} :
    ∀ {now : DateTime} {t : Table}, PullsInTurn cfg queueName t calls →
      InWindow cfg queueName now t calls →
      (∀ call ∈ calls, call.FetchSucceeds cfg queueName) →
      (∀ r ∈ available cfg now queueName t, r.ReadableFiles) →
      (∀ call ∈ calls.take (available cfg now queueName t).length, call.BringsFiles cfg queueName) →
      (available cfg now queueName t).length ≤ calls.length →
        ∃ rows, Predicted cfg queueName now t (available cfg now queueName t).length calls rows := by
  induction calls with
  | nil =>
      intro now t _ _ _ _ _ hlen
      have hnone : available cfg now queueName t = [] := List.length_eq_zero_iff.1 (Nat.le_zero.1 hlen)
      refine ⟨[], ?_⟩
      rw [hnone]
      exact predicted_nil hnone
  | cons call calls ih =>
      intro now t hturn hwindow hfetch hread hbrings hlen
      rcases hturn with _ | ⟨hsame, hchecks, hclock, hturn⟩
      have hquery := hwindow.meanwhile call (by simp)
      rcases List.pairwise_cons.1 hwindow.within with ⟨hlease, hwithin⟩
      have hfetch' : ∀ c ∈ calls, c.FetchSucceeds cfg queueName := fun c hc => hfetch c (by simp [hc])
      -- the rows that the call finds are those counted
      have hfound := hquery.available_perm hsame
      by_cases hne : available cfg call.env.queryTime queueName call.found = []
      · have hnone : available cfg now queueName t = [] := List.perm_nil.1 (hne ▸ hfound)
        have hempty := PullCall.findsEmpty_of_available hchecks hne
        have htable : (call.ended cfg).table = call.found := congrArg Ended.table hempty
        rw [htable] at hturn
        have hlater : ∀ c ∈ calls, Meanwhile cfg queueName call.env.queryTime call.found c.env.queryTime :=
          fun c hc => (hwindow.meanwhile c (by simp [hc])).later hquery.le
            (le_trans hclock (hlease c hc).1) fun r hr hqueue => Or.inl ((hsame r hqueue).2 hr)
        rcases ih hturn ⟨hlater, hwithin⟩ hfetch' (by simp [hne]) (by simp [hne]) (by simp [hne]) with
          ⟨rows, hrows⟩
        rw [hne] at hrows
        refine ⟨[], ?_⟩
        rw [hnone]
        exact hrows.cons_empty hnone hne hempty
      · have hcount : (available cfg now queueName t).length ≠ 0 := by
          rw [hfound.length_eq]
          exact fun hzero => hne (List.length_eq_zero_iff.1 hzero)
        have hfirst : call.BringsFiles cfg queueName := by
          refine hbrings call ?_
          rw [← Nat.succ_pred_eq_of_ne_zero hcount, List.take_succ_cons]
          exact List.mem_cons_self
        rcases PullCall.serves_of_available hchecks hne
          (fun r hr => hread r (hfound.mem_iff.2 hr)) (hfetch call (by simp)) hfirst with
          ⟨s, hs, hle, hserves, htable⟩
        have hleft := hfound.trans (available_perm_afterCall hdelay hclock hs htable)
        have hlater : ∀ time, Meanwhile cfg queueName now t time →
            DuringLease cfg call.env.pullTime time →
              Meanwhile cfg queueName call.env.queryTime (call.ended cfg).table time :=
          fun time hmean hlease => hmean.afterCall hquery hsame hclock hlease hserves.1 htable
        have hlen' : (available cfg call.env.queryTime queueName (call.ended cfg).table).length ≤
            calls.length := by
          have := hleft.length_eq
          simp only [List.length_cons] at this hlen
          omega
        have hn := hleft.length_eq
        rw [List.length_cons] at hn
        rw [hn, List.take_succ_cons] at hbrings
        rcases ih hturn
          ⟨fun c hc => hlater _ (hwindow.meanwhile c (by simp [hc])) (hlease c hc), hwithin⟩ hfetch'
          (fun r hr => hread r (hleft.mem_iff.2 (List.mem_cons_of_mem s hr)))
          (fun c hc => hbrings c (List.mem_cons_of_mem call hc)) hlen' with ⟨rows, hrows⟩
        refine ⟨s :: rows, ?_⟩
        rw [hn]
        refine hrows.cons_served rfl hserves (fun r hr => hle r (hfound.mem_iff.1 hr)) hleft ?_ hlater
        rw [hquery.getQueueLength_eq hsame, hn]

/-! ## The length in a reply -/

variable {σ : Type} {storage : Storage σ}

/-- A reply says that the length of the queue is `n` at the time `now`.  A submit request says so
about the table with its own row. -/
inductive Announced (cfg : Config) (storage : Storage σ) (queueName : PyStr) :
    DateTime → Table → Nat → Option Submission → Prop
  | queuelen {request : HttpRequest} {now : DateTime} {t : Table} {n : Nat} :
      QueryDict.get? request.get (py "queue_name") = some queueName →
      getQueuelen cfg now request t = .reply true (.int n) → Announced cfg storage queueName now t n none
  | submitted {env : SubmitEnv} {request : HttpRequest} {row : Submission} {st : σ} {u : Table} {n : Nat} :
      row.queueName = queueName →
      .inserted request row ∈ (submit cfg storage env request st u).2.outputs →
      (submit cfg storage env request st u).2.result = .ok (.reply true (.str (PyStr.ofNat n))) →
        Announced cfg storage queueName env.countTime (submit cfg storage env request st u).2.table n
          (some row)

theorem getQueuelen_eq_success {request : HttpRequest} {n : Nat}
    (hqueue : QueryDict.get? request.get (py "queue_name") = some queueName)
    (h : getQueuelen cfg now request t = .reply true (.int n)) :
    n = (available cfg now queueName t).length := by
  unfold getQueuelen queueChecks at h
  rw [hqueue] at h
  by_cases hauth : request.isAuthenticated = true
  · by_cases hname : cfg.hasQueue queueName = true
    · simp only [hauth, hname, Bool.not_true, Bool.false_eq_true, if_false, if_true,
        HttpResponse.reply.injEq, Json.int.injEq, true_and] at h
      rw [← getQueueLength_eq]
      omega
    · simp [hauth, hname, HttpResponse.failure] at h
  · simp [hauth] at h

/-- The length announced is the number of rows available, and a submitted row is one of them. -/
theorem Announced.length_eq {n : Nat} {submitted : Option Submission}
    (h : Announced cfg storage queueName now t n submitted) :
    n = (available cfg now queueName t).length ∧
      ∀ row, submitted = some row → row ∈ available cfg now queueName t := by
  cases h with
  | queuelen hqueue hreply => exact ⟨getQueuelen_eq_success hqueue hreply, by simp⟩
  | @submitted env request row st u n hqueue hinserted hreply =>
      rcases stored_of_inserted hinserted with
        ⟨-, valid, callback, urlsJson, keysJson, -, -, hrow, hmem, hresult⟩
      rw [hresult] at hreply
      simp only [Except.ok.injEq, HttpResponse.reply.injEq, Json.str.injEq, true_and] at hreply
      refine ⟨?_, ?_⟩
      · rw [← getQueueLength_eq, ← hqueue]
        exact (PyStr.ofNat_injective hreply).symm
      · intro row' hrow'
        have hnew : timeFilter cfg env.countTime .pullTime row = true ∧ row.retired = false := by
          rw [hrow]
          exact ⟨rfl, rfl⟩
        cases hrow'
        exact mem_available.2 ⟨hmem, isAvailable_iff.2 ⟨hnew.1, hqueue, hnew.2⟩⟩

/-- If the row has arrived after all others of the queue, it is handed out last. -/
theorem Predicted.getElem?_latest {n : Nat} {calls : List PullCall} {rows : List Submission}
    (h : Predicted cfg queueName now t n calls rows) (hn : n = (available cfg now queueName t).length)
    (hs : s ∈ available cfg now queueName t)
    (hlatest : ∀ r ∈ t, r.queueName = queueName → r.id ≠ s.id → r.arrivalTime < s.arrivalTime) :
    rows[n - 1]? = some s := by
  have hlast : rows.getLast? = some s := by
    refine h.drains.getLast?_eq hs ?_
    intro r hr hne
    rcases mem_available.1 hr with ⟨hr, hav⟩
    refine hlatest r hr (isAvailable_iff.1 hav).2.1 ?_
    exact fun hid => hne (KeyedTable.eq_of_key_eq hr (mem_available.1 hs).1 hid)
  have hlen : rows.length = n := by
    rw [hn, h.drains.length_eq, List.length_nil, Nat.add_zero]
  rw [← hlen, ← List.getLast?_eq_getElem?]
  exact hlast

/-- The announced length predicts the pulls exactly if the file map of every row counted can be
read, and the first `n` calls fetch nothing but file dictionaries. -/
theorem queue_length_predicts_iff (hdelay : 0 < cfg.submissionProcessingDelay) {n : Nat}
    {submitted : Option Submission} {calls : List PullCall}
    (hannounced : Announced cfg storage queueName now t n submitted)
    (hturn : PullsInTurn cfg queueName t calls) (hwindow : InWindow cfg queueName now t calls)
    (hfetch : ∀ call ∈ calls, call.FetchSucceeds cfg queueName) (hlen : n < calls.length) :
    (∃ rows, Predicted cfg queueName now t n calls rows ∧
      rows.Perm (available cfg now queueName t) ∧ (rows.map Submission.id).Nodup ∧
      rows.Pairwise (fun r s => r.arrivalTime ≤ s.arrivalTime) ∧
      ∀ row, submitted = some row →
        (∀ r ∈ t, r.queueName = queueName → r.id ≠ row.id → r.arrivalTime < row.arrivalTime) →
          rows[n - 1]? = some row) ↔
      (∀ r ∈ available cfg now queueName t, r.ReadableFiles) ∧
        ∀ call ∈ calls.take n, call.BringsFiles cfg queueName := by
  rcases hannounced.length_eq with ⟨hn, hsubmitted⟩
  constructor
  · rintro ⟨rows, hpredicted, hperm, -⟩
    rcases List.forall₂_iff_get.1 hpredicted.served with ⟨hcount, hserves⟩
    constructor
    · intro r hr
      -- the row is one of those handed out
      have hrows := hperm.mem_iff.2 hr
      rcases List.mem_iff_get.1 hrows with ⟨i, hi⟩
      rcases hserves i (by omega) i.isLt with ⟨-, files, hserved, -⟩
      have hreadable := readableFiles_of_filesServed hserved
      rw [← hi]
      exact hreadable
    · intro call hcall
      -- the call is one of those that hand out a row
      have hchecks := hturn.checks call (List.mem_of_mem_take hcall)
      rcases List.mem_iff_get.1 hcall with ⟨i, hi⟩
      have hserved := hserves i i.isLt (by omega)
      rw [← hi] at hchecks ⊢
      exact PullCall.bringsFiles_of_serves hchecks hserved
  · rintro ⟨hread, hbrings⟩
    rcases predicted_of_calls hdelay hturn hwindow hfetch hread (by rwa [← hn]) (by omega) with
      ⟨rows, hrows⟩
    rw [← hn] at hrows
    have hperm : rows.Perm (available cfg now queueName t) := by
      simpa using hrows.drains.perm.symm
    have hids : ((available cfg now queueName t).map Submission.id).Nodup :=
      t.nodup.sublist (List.filter_sublist.map _)
    refine ⟨rows, hrows, hperm, (hperm.map Submission.id).nodup_iff.2 hids, hrows.drains.pairwise_le, ?_⟩
    exact fun row hrow hlatest => hrows.getElem?_latest hn (hsubmitted row hrow) hlatest

/-! ## Pulls in a row -/

/-- The text of a file dictionary. -/
def emptyDictionary : PyStr :=
  Json.dumps (.obj [(py "files", .obj [])])

theorem externalFiles_emptyDictionary : externalFiles emptyDictionary = .ok (Json.dumps (.obj [])) := by
  decide +kernel

/-- A pull at a minute past ten, for which any fetch brings a file dictionary. -/
def pullFrom (t : Table) : PullCall :=
  ⟨t, pullRequest (py "test-pull"), ⟨.insertion, clockAt 1, clockAt 1, .response 200 emptyDictionary⟩⟩

theorem getQueuelen_pullRequest (now : DateTime) (t : Table) :
    getQueuelen devSettings now (pullRequest (py "test-pull")) t =
      .reply true (.int (getQueueLength devSettings now (py "test-pull") t)) :=
  rfl

/-- Pulls without anything in between. -/
def pullsFrom : Nat → Table → List PullCall
  | 0, _ => []
  | n + 1, t => pullFrom t :: pullsFrom n ((pullFrom t).ended devSettings).table

theorem exists_pullFrom {call : PullCall} {n : Nat} {t : Table} (h : call ∈ pullsFrom n t) :
    ∃ u, call = pullFrom u := by
  induction n generalizing t with
  | zero => cases h
  | succ n ih =>
      rcases List.mem_cons.1 h with rfl | h
      · exact ⟨t, rfl⟩
      · exact ih h

theorem pullsInTurn_pullsFrom (n : Nat) (t : Table) :
    PullsInTurn devSettings (py "test-pull") t (pullsFrom n t) := by
  induction n generalizing t with
  | zero => exact PullsInTurn.nil t
  | succ n ih => exact PullsInTurn.cons (SameQueue.refl _ t) rfl (le_refl _) (ih _)

theorem inWindow_pullsFrom (n : Nat) (t : Table) :
    InWindow devSettings (py "test-pull") (clockAt 1) t (pullsFrom n t) := by
  refine ⟨?_, List.pairwise_of_forall_mem_list ?_⟩
  · intro call hcall
    rcases exists_pullFrom hcall with ⟨u, rfl⟩
    exact ⟨le_refl _, fun r _ _ h => h⟩
  · intro c hc d hd
    rcases exists_pullFrom hc with ⟨u, rfl⟩
    rcases exists_pullFrom hd with ⟨v, rfl⟩
    have hwithin : ((clockAt 1).micros : Int) < (clockAt 1).micros + devSettings.submissionProcessingDelay := by
      decide
    exact ⟨le_refl _, hwithin⟩

theorem fetchSucceeds_pullsFrom (n : Nat) (t : Table) :
    ∀ call ∈ pullsFrom n t, call.FetchSucceeds devSettings (py "test-pull") := by
  intro call hcall s _ url _
  rcases exists_pullFrom hcall with ⟨u, rfl⟩
  exact ⟨_, rfl⟩

theorem bringsFiles_pullsFrom (n : Nat) (t : Table) :
    ∀ call ∈ pullsFrom n t, call.BringsFiles devSettings (py "test-pull") := by
  intro call hcall s _ url text _ htext
  rcases exists_pullFrom hcall with ⟨u, rfl⟩
  cases htext
  exact ⟨_, externalFiles_emptyDictionary⟩

theorem length_pullsFrom (n : Nat) (t : Table) : (pullsFrom n t).length = n := by
  induction n generalizing t with
  | zero => rfl
  | succ n ih => simp [pullsFrom, ih]

/-- The second of two jobs for different problems. -/
def nextSubmit : Nat × Ended HttpResponse :=
  submit devSettings pathStorage ⟨clockAt 1, clockAt 1, true⟩ (jobFor (py "/lms/2/problem")) 0 pendingTable

/-- The second job is announced as the second in the queue, and the second pull hands it out. -/
theorem queue_length_predicts_twoJobs :
    ∃ row, .inserted (jobFor (py "/lms/2/problem")) row ∈ nextSubmit.2.outputs ∧
      ∃ rows, Predicted devSettings (py "test-pull") (clockAt 1) nextSubmit.2.table 2
        (pullsFrom 3 nextSubmit.2.table) rows ∧ rows[1]? = some row := by
  -- the facts about the job, by evaluation
  have hfacts : isSuccessReply nextSubmit.2.result = true ∧
      getQueueLength devSettings (clockAt 1) (py "test-pull") nextSubmit.2.table = 2 ∧
      pendingTable.nextKey = 2 ∧ ∀ r ∈ nextSubmit.2.table.rows, r.queueName = py "test-pull" ∧
        ¬ urlMarker <:+: r.s3Urls ∧ r.s3Urls = Json.dumps (.obj []) ∧
        (r.id ≠ 2 → r.arrivalTime < clockAt 1) := by
    decide +kernel
  rcases hfacts with ⟨hsuccess, hlength, hkey, hrows⟩
  unfold nextSubmit at *
  generalize jobFor (py "/lms/2/problem") = request at *
  generalize pendingTable = u at *
  rcases exists_inserted hsuccess with ⟨row, hrow⟩
  rcases stored_of_inserted hrow with
    ⟨-, valid, callback, urlsJson, keysJson, -, -, hnew, hmem, hreply⟩
  have hqueue : row.queueName = py "test-pull" := (hrows row hmem).1
  rw [hqueue, hlength] at hreply
  have hannounced := Announced.submitted hqueue hrow hreply
  have hread : ∀ r ∈ available devSettings (clockAt 1) (py "test-pull")
      (submit devSettings pathStorage ⟨clockAt 1, clockAt 1, true⟩ request 0 u).2.table,
      r.ReadableFiles := by
    intro r hr
    rcases hrows r (mem_available.1 hr).1 with ⟨-, hmarker, hurls, -⟩
    have hplain : Json.Plain (.obj []) :=
      Json.Plain.obj_of_keys [] rfl (by decide) (by decide) (by simp)
    exact ⟨_, decodedUrls_of_dumps hplain hurls, fun h => absurd h hmarker⟩
  rcases (queue_length_predicts_iff (by decide) hannounced (pullsInTurn_pullsFrom 3 _)
    (inWindow_pullsFrom 3 _) (fetchSucceeds_pullsFrom 3 _) (by simp [length_pullsFrom])).2
    ⟨hread, fun call hcall => bringsFiles_pullsFrom 3 _ call (List.mem_of_mem_take hcall)⟩ with
    ⟨rows, hpredicted, -, -, -, hlast⟩
  refine ⟨row, hrow, rows, hpredicted, hlast row rfl ?_⟩
  intro r hr _ hne
  rw [hnew] at hne ⊢
  exact (hrows r hr).2.2.2 (hkey ▸ hne)

/-- A job with a file whose name contains the text that a pull looks for. -/
def jobWithMarkedName : HttpRequest :=
  jobWithFiles (py "/lms/1/problem") [(urlMarker ++ py ".txt", py "print(1)")] (by decide) (by decide)

/-- The table after that job. -/
def markedTable : Table :=
  tableAfter devSettings [.submit pathStorage ⟨clockAt 0, clockAt 0, true⟩ jobWithMarkedName]
    KeyedTable.empty

/-- The only row is counted, and its pull raises an exception, although no fetch fails. -/
theorem marked_name_undelivered :
    ¬ (∀ (t : Table) (n : Nat) (submitted : Option Submission) (calls : List PullCall),
      (atomicSystem devSettings).Reachable KeyedTable.empty t →
      Announced devSettings pathStorage (py "test-pull") (clockAt 1) t n submitted →
      PullsInTurn devSettings (py "test-pull") t calls →
      InWindow devSettings (py "test-pull") (clockAt 1) t calls →
      (∀ call ∈ calls, call.FetchSucceeds devSettings (py "test-pull")) → n < calls.length →
        ∃ rows, Predicted devSettings (py "test-pull") (clockAt 1) t n calls rows) := by
  intro h
  have hfacts : getQueueLength devSettings (clockAt 1) (py "test-pull") markedTable = 1 ∧
      isSuccessReply ((pullFrom markedTable).ended devSettings).result = false := by
    decide +kernel
  rcases hfacts with ⟨hlength, hfails⟩
  have hreach : (atomicSystem devSettings).Reachable KeyedTable.empty markedTable :=
    reachable_tableAfter _ _ _
  generalize markedTable = t at *
  have hreply := getQueuelen_pullRequest (clockAt 1) t
  rw [hlength] at hreply
  rcases h t 1 none (pullsFrom 2 t) hreach (Announced.queuelen rfl hreply) (pullsInTurn_pullsFrom 2 t)
    (inWindow_pullsFrom 2 t) (fetchSucceeds_pullsFrom 2 t) (by simp [length_pullsFrom]) with
    ⟨rows, hpredicted⟩
  have hserved : List.Forall₂ (PullCall.Serves devSettings) [pullFrom t] rows := hpredicted.served
  cases hserved with
  | cons hserves _ =>
      rcases hserves with ⟨-, files, -, hresult⟩
      rw [hresult] at hfails
      cases hfails

end Xqueue
