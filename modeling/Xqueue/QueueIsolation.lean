import Xqueue.Deployment
import Xqueue.Library.Unwinding
import Xqueue.Operations

/-!
# QueueIsolation — what happens in other queues does not show

One service has the queues of many courses.  Whoever works on one queue sees the same rows, under the
same ids, whether anybody works on the other queues or not.

* `rowsOf`, `QueueAlike` : the rows of a queue, and tables that agree on them;
* `Event.Concerns` : the events that work on the queue, and all submits;
* `run_alike`, `run_left` : the two ways in which an event goes with `QueueAlike`;
* `queue_isolated` : every run is, for the queue, the run of the events in it that concern the queue.

A submit always concerns the queue: it takes an id, and the callback that it supersedes may be that of
a row in another queue.
-/

namespace Xqueue

open Library
open Library.System

/-! ## Tables that agree on a queue -/

def rowsOf (queueName : PyStr) (t : Table) : List Submission :=
  t.rows.filter (fun r => r.queueName == queueName)

structure QueueAlike (queueName : PyStr) (t u : Table) : Prop where
  nextKey : t.nextKey = u.nextKey
  rows : rowsOf queueName t = rowsOf queueName u

variable {cfg : Config} {queueName : PyStr} {t u : Table} {s c : Submission} {now : DateTime} {e : Event}
  {os : List Output} {es : List Event}

theorem mem_rowsOf : s ∈ rowsOf queueName t ↔ s ∈ t ∧ s.queueName = queueName := by
  rw [rowsOf, List.mem_filter, beq_iff_eq, KeyedTable.mem_rows]

theorem QueueAlike.mem (h : QueueAlike queueName t u) (hs : s ∈ t) (hname : s.queueName = queueName) :
    s ∈ u := by
  have hmem : s ∈ rowsOf queueName t := mem_rowsOf.2 ⟨hs, hname⟩
  rw [h.rows] at hmem
  exact (mem_rowsOf.1 hmem).1

/-- A condition that only rows of the queue meet selects the same rows. -/
theorem QueueAlike.filter_eq (h : QueueAlike queueName t u) {p : Submission → Bool}
    (hp : ∀ r, p r = true → r.queueName = queueName) : t.rows.filter p = u.rows.filter p := by
  have hrows : ∀ v : Table, v.rows.filter p = (rowsOf queueName v).filter p := by
    intro v
    rw [rowsOf, List.filter_filter]
    refine List.filter_congr fun r _ => ?_
    cases hpr : p r with
    | false => rfl
    | true => simp [hp r hpr]
  rw [hrows t, hrows u, h.rows]

/-! ## Saves -/

/-- The instance is one of the row. -/
def Instance (s c : Submission) : Prop :=
  c.id = s.id ∧ c.queueName = s.queueName

theorem instance_of_work {task : Task} {env : WorkEnv} (hwork : task.work cfg env s = (os, .ok c)) :
    Instance s c :=
  ⟨id_of_work hwork, congrArg Origin.queueName (origin_of_work hwork)⟩

theorem rows_save (hs : s ∈ t) (hid : c.id = s.id) :
    (save now c t).rows = t.rows.map (fun r => if r.id = s.id then c else r) := by
  rw [save_of_mem now hs hid, KeyedTable.rows_put hs hid]

theorem nextKey_save (hs : s ∈ t) (hid : c.id = s.id) : (save now c t).nextKey = t.nextKey := by
  rw [save_of_mem now hs hid]
  refine Nat.max_eq_left ?_
  rw [hid]
  exact t.fresh s hs

theorem rowsOf_save (hs : s ∈ t) (hc : Instance s c) :
    rowsOf queueName (save now c t) =
      (rowsOf queueName t).map (fun r => if r.id = s.id then c else r) := by
  have hname : ∀ r ∈ t.rows, ((fun r : Submission => r.queueName == queueName) ∘
      fun r => if r.id = s.id then c else r) r = (r.queueName == queueName) := by
    intro r hr
    by_cases hid : r.id = s.id
    · have heq : r = s := KeyedTable.eq_of_key_eq hr hs hid
      simp [heq, hc.2]
    · simp [hid]
  rw [rowsOf, rows_save hs hc.1, List.filter_map, List.filter_congr hname]
  rfl

theorem QueueAlike.save (h : QueueAlike queueName t u) (hs : s ∈ t) (hs' : s ∈ u) (hc : Instance s c)
    (now : DateTime) : QueueAlike queueName (save now c t) (save now c u) where
  nextKey := by rw [nextKey_save hs hc.1, nextKey_save hs' hc.1, h.nextKey]
  rows := by rw [rowsOf_save hs hc, rowsOf_save hs' hc, h.rows]

/-- A save of a row of another queue. -/
theorem QueueAlike.save_left (h : QueueAlike queueName t u) (hs : s ∈ t) (hname : s.queueName ≠ queueName)
    (hc : Instance s c) (now : DateTime) : QueueAlike queueName (Xqueue.save now c t) u where
  nextKey := by rw [nextKey_save hs hc.1, h.nextKey]
  rows := by
    have hrow : ∀ r ∈ rowsOf queueName t, (if r.id = s.id then c else r) = id r := by
      intro r hr
      rcases mem_rowsOf.1 hr with ⟨hr, hrname⟩
      refine if_neg fun hid => hname ?_
      rw [← KeyedTable.eq_of_key_eq hr hs hid]
      exact hrname
    rw [rowsOf_save hs hc, List.map_congr_left hrow, List.map_id, h.rows]

/-- Two operations that end alike for the queue. -/
structure EndsAlike {α : Type} (queueName : PyStr) (a b : Ended α) : Prop where
  outputs : a.outputs = b.outputs
  result : a.result = b.result
  table : QueueAlike queueName a.table b.table

/-- One operation after another. -/
theorem EndsAlike.append {α β : Type} {a b : Ended α} {c d : Ended β} (h : EndsAlike queueName a b)
    (h' : EndsAlike queueName c d) :
    EndsAlike queueName (⟨c.table, a.outputs ++ c.outputs, c.result⟩ : Ended β)
      ⟨d.table, b.outputs ++ d.outputs, d.result⟩ where
  outputs := congrArg₂ (· ++ ·) h.outputs h'.outputs
  result := h'.result
  table := h'.table

theorem QueueAlike.finish (h : QueueAlike queueName t u) (hs : s ∈ t) (hs' : s ∈ u) {work : Work}
    (hwork : ∀ c, work.2 = .ok c → Instance s c) (now : DateTime) :
    EndsAlike queueName (work.finish now t) (work.finish now u) := by
  rcases work with ⟨os, e | c⟩
  · exact ⟨rfl, rfl, h⟩
  · exact ⟨rfl, rfl, h.save hs hs' (hwork c rfl) now⟩

theorem QueueAlike.finish_left (h : QueueAlike queueName t u) (hs : s ∈ t)
    (hname : s.queueName ≠ queueName) {work : Work} (hwork : ∀ c, work.2 = .ok c → Instance s c)
    (now : DateTime) : QueueAlike queueName (work.finish now t).table u := by
  rcases work with ⟨os, e | c⟩
  · exact h
  · exact h.save_left hs hname (hwork c rfl) now

/-! ## The loops of the commands -/

/-- What a loop leaves of the rows that are still to come. -/
theorem mem_finish {work : Work} {r : Submission} (hr : r ∈ t) (hne : r.id ≠ s.id)
    (hwork : ∀ c, work.2 = .ok c → Instance s c) : r ∈ (work.finish now t).table := by
  rcases work with ⟨os, e | c⟩
  · exact hr
  · refine mem_save.2 (Or.inr ⟨hr, ?_⟩)
    rw [(hwork c rfl).1]
    exact hne

section Loop

variable {work : Submission → Work} {rows : List Submission}

theorem QueueAlike.saveEach (hwork : ∀ s c, (work s).2 = .ok c → Instance s c) :
    ∀ {t u : Table}, QueueAlike queueName t u → (∀ s ∈ rows, s ∈ t) → (∀ s ∈ rows, s ∈ u) →
      (rows.map Submission.id).Nodup →
        EndsAlike queueName (saveEach work now rows t) (saveEach work now rows u) := by
  induction rows with
  | nil => exact fun h _ _ _ => ⟨rfl, rfl, h⟩
  | cons s rows ih =>
      intro t u h ht hu hnodup
      rcases List.nodup_cons.1 hnodup with ⟨hnotin, hnodup⟩
      have hother : ∀ r ∈ rows, r.id ≠ s.id := fun r hr heq => hnotin (heq ▸ List.mem_map_of_mem hr)
      have hfirst := h.finish (ht s List.mem_cons_self) (hu s List.mem_cons_self) (hwork s) now
      have ht' : ∀ r ∈ rows, r ∈ ((work s).finish now t).table := fun r hr =>
        mem_finish (ht r (List.mem_cons_of_mem s hr)) (hother r hr) (hwork s)
      have hu' : ∀ r ∈ rows, r ∈ ((work s).finish now u).table := fun r hr =>
        mem_finish (hu r (List.mem_cons_of_mem s hr)) (hother r hr) (hwork s)
      have hrest := ih hfirst.table ht' hu' hnodup
      simp only [Xqueue.saveEach, hfirst.result]
      split
      · exact ⟨hfirst.outputs, rfl, hfirst.table⟩
      · exact hfirst.append hrest

theorem QueueAlike.saveEach_left (hwork : ∀ s c, (work s).2 = .ok c → Instance s c) :
    ∀ {t : Table}, QueueAlike queueName t u → (∀ s ∈ rows, s ∈ t) →
      (∀ s ∈ rows, s.queueName ≠ queueName) → (rows.map Submission.id).Nodup →
        QueueAlike queueName (Xqueue.saveEach work now rows t).table u := by
  induction rows with
  | nil => exact fun h _ _ _ => h
  | cons s rows ih =>
      intro t h ht hnames hnodup
      rcases List.nodup_cons.1 hnodup with ⟨hnotin, hnodup⟩
      have hother : ∀ r ∈ rows, r.id ≠ s.id := fun r hr heq => hnotin (heq ▸ List.mem_map_of_mem hr)
      have hfirst := h.finish_left (ht s List.mem_cons_self) (hnames s List.mem_cons_self) (hwork s) now
      have ht' : ∀ r ∈ rows, r ∈ ((work s).finish now t).table := fun r hr =>
        mem_finish (ht r (List.mem_cons_of_mem s hr)) (hother r hr) (hwork s)
      simp only [Xqueue.saveEach]
      split
      · exact hfirst
      · exact ih hfirst ht' (fun r hr => hnames r (List.mem_cons_of_mem s hr)) hnodup

end Loop

theorem instance_of_retireFailed {force : Bool} {lms : Nat → HttpResult} (s c : Submission)
    (h : (s.retireFailed force lms).2 = .ok c) : Instance s c := by
  cases force with
  | true =>
      cases h
      exact ⟨rfl, rfl⟩
  | false =>
      rcases map_outcome_eq_ok.1 h with ⟨acked, -, rfl⟩
      exact ⟨rfl, rfl⟩

theorem instance_of_retireOld {lms : Nat → HttpResult} (s c : Submission)
    (h : (s.retireOld lms).2 = .ok c) : Instance s c := by
  rcases map_outcome_eq_ok.1 h with ⟨acked, -, rfl⟩
  exact ⟨rfl, rfl⟩

theorem queueName_of_isFailed {name : PyStr} (h : isFailed (some name) s = true) : s.queueName = name := by
  simp only [isFailed, Bool.and_eq_true, beq_iff_eq] at h
  exact h.2

theorem queueName_of_isOldIn {bound : Option DateTime} (h : isOldIn queueName bound s = true) :
    s.queueName = queueName := by
  simp only [isOldIn, Bool.and_eq_true, beq_iff_eq] at h
  exact h.1.1

/-- The passes over the queue alone. -/
theorem QueueAlike.retirePasses {env : CommandEnv} {force : Bool} {scopes : List (Option PyStr)}
    (hscopes : ∀ scope ∈ scopes, scope = some queueName) :
    ∀ {pass : Nat} {t u : Table}, QueueAlike queueName t u →
      EndsAlike queueName (retirePasses cfg env force pass scopes t)
        (retirePasses cfg env force pass scopes u) := by
  induction scopes with
  | nil => exact fun h => ⟨rfl, rfl, h⟩
  | cons scope scopes ih =>
      intro pass t u h
      rcases hscopes scope List.mem_cons_self with rfl
      have hrows : failedSubmissions cfg (env.plan pass) (some queueName) t =
          failedSubmissions cfg (env.plan pass) (some queueName) u := by
        rw [failedSubmissions, failedSubmissions, h.filter_eq fun r hr => queueName_of_isFailed hr]
      have hu : ∀ s ∈ failedSubmissions cfg (env.plan pass) (some queueName) t, s ∈ u := by
        intro s hs
        rw [hrows] at hs
        exact (mem_failedSubmissions.1 hs).1
      have hpass : EndsAlike queueName
          (Xqueue.saveEach (fun s => s.retireFailed force (env.lms pass s.id)) env.now
            (failedSubmissions cfg (env.plan pass) (some queueName) t) t)
          (Xqueue.saveEach (fun s => s.retireFailed force (env.lms pass s.id)) env.now
            (failedSubmissions cfg (env.plan pass) (some queueName) t) u) :=
        QueueAlike.saveEach (fun s c => instance_of_retireFailed s c) h
          (fun s hs => (mem_failedSubmissions.1 hs).1) hu nodup_failedSubmissions
      have hrest := @ih (fun scope hscope => hscopes scope (List.mem_cons_of_mem _ hscope)) (pass + 1) _ _
        hpass.table
      simp only [Xqueue.retirePasses, ← hrows, hpass.result]
      split
      · exact ⟨hpass.outputs, rfl, hpass.table⟩
      · exact hpass.append hrest

/-- The passes over other queues. -/
theorem QueueAlike.retirePasses_left {env : CommandEnv} {force : Bool} {scopes : List (Option PyStr)}
    (hscopes : ∀ scope ∈ scopes, ∃ name, scope = some name ∧ name ≠ queueName) :
    ∀ {pass : Nat} {t : Table}, QueueAlike queueName t u →
      QueueAlike queueName (Xqueue.retirePasses cfg env force pass scopes t).table u := by
  induction scopes with
  | nil => exact fun h => h
  | cons scope scopes ih =>
      intro pass t h
      rcases hscopes scope List.mem_cons_self with ⟨name, rfl, hname⟩
      have hnames : ∀ s ∈ failedSubmissions cfg (env.plan pass) (some name) t,
          s.queueName ≠ queueName := by
        intro s hs
        rw [queueName_of_isFailed (mem_failedSubmissions.1 hs).2.1]
        exact hname
      have hpass : QueueAlike queueName (Xqueue.saveEach (fun s => s.retireFailed force (env.lms pass s.id))
          env.now (failedSubmissions cfg (env.plan pass) (some name) t) t).table u :=
        QueueAlike.saveEach_left (fun s c => instance_of_retireFailed s c) h
          (fun s hs => (mem_failedSubmissions.1 hs).1) hnames nodup_failedSubmissions
      simp only [Xqueue.retirePasses]
      split
      · exact hpass
      · exact ih (fun scope hscope => hscopes scope (List.mem_cons_of_mem _ hscope)) hpass

/-! ## Submits -/

theorem QueueAlike.invalidate (h : QueueAlike queueName t u) (callback : PyStr) :
    QueueAlike queueName (invalidatePriorSubmissions callback t) (invalidatePriorSubmissions callback u) := by
  have hrows : ∀ v : Table, rowsOf queueName (invalidatePriorSubmissions callback v) =
      (rowsOf queueName v).map (fun r => if isPrior callback r then r.retire else r) := by
    intro v
    have hname : ∀ r ∈ v.rows, ((fun r : Submission => r.queueName == queueName) ∘
        fun r => if isPrior callback r then r.retire else r) r = (r.queueName == queueName) := by
      intro r _
      by_cases hprior : isPrior callback r = true <;> simp [hprior, Submission.retire]
    calc
      rowsOf queueName (invalidatePriorSubmissions callback v)
          = (v.rows.map (fun r => if isPrior callback r then r.retire else r)).filter
              (fun r => r.queueName == queueName) := rfl
      _ = (rowsOf queueName v).map (fun r => if isPrior callback r then r.retire else r) := by
            rw [List.filter_map, List.filter_congr hname]
            rfl
  exact ⟨h.nextKey, by rw [hrows t, hrows u, h.rows]⟩

theorem QueueAlike.insert (h : QueueAlike queueName t u) (mk : Nat → Submission) (hmk : ∀ k, (mk k).id = k) :
    QueueAlike queueName (t.insert mk hmk) (u.insert mk hmk) := by
  have hrows : ∀ v : Table, rowsOf queueName (v.insert mk hmk) =
      rowsOf queueName v ++ [mk v.nextKey].filter (fun r => r.queueName == queueName) :=
    fun v => List.filter_append _ _
  exact ⟨congrArg (· + 1) h.nextKey, by rw [hrows t, hrows u, h.rows, h.nextKey]⟩

theorem QueueAlike.submit (h : QueueAlike queueName t u) (storage : Storage Nat) (env : SubmitEnv)
    (request : HttpRequest) :
    (submit cfg storage env request 0 t).2.outputs = (submit cfg storage env request 0 u).2.outputs ∧
      QueueAlike queueName (Xqueue.submit cfg storage env request 0 t).2.table
        (Xqueue.submit cfg storage env request 0 u).2.table := by
  cases hchecks : submitChecks cfg request with
  | error response =>
      simpa only [Xqueue.submit, hchecks, true_and] using h
  | ok valid =>
      cases hcallback : storedCallback cfg valid.lmsCallbackUrl with
      | error e =>
          simpa only [Xqueue.submit, hchecks, hcallback, true_and] using h
      | ok callback =>
          have hinvalidated := h.invalidate callback
          rcases hup : uploadFiles cfg storage 0 request valid.header valid.queueName with
            ⟨st, e | ⟨urlsJson, keysJson⟩⟩
          · -- the upload fails, and the prior submissions are superseded all the same
            simpa only [Xqueue.submit, hchecks, hcallback, storeSubmission, hup, true_and] using
              hinvalidated
          · -- the two tables have the same next id, so the database takes the row in both or in none
            simp only [Xqueue.submit, hchecks, hcallback, storeSubmission, hup, hinvalidated.nextKey]
            split
            · exact ⟨rfl, hinvalidated.insert _ (fun _ => rfl)⟩
            · exact ⟨rfl, hinvalidated⟩

/-! ## Events -/

/-- The event works on the queue; a submit to any queue may. -/
def Event.Concerns (cfg : Config) (queueName : PyStr) (t : Table) : Event → Prop
  | .submit _ _ _ => True
  | .getSubmission _ request => getSubmissionChecks cfg request = .ok queueName
  | .putResult _ request => ∃ s graderReply, putResultChecks request t = .ok (s, graderReply) ∧
      s.queueName = queueName
  | .deliverSubmission _ worker => worker.queueName = queueName
  | .retireFailedSubmissions _ _ queueNames => queueName ∈ queueNames
  | .retireOldSubmissions _ name _ => name = queueName

/-- A `retire_failed_submissions` over the queue is over no other: an exception for a row of another
queue would end it. -/
def Event.OneQueue (queueName : PyStr) : Event → Prop
  | .retireFailedSubmissions _ _ queueNames =>
      queueNames ≠ [] ∧ (queueName ∈ queueNames → ∀ name ∈ queueNames, name = queueName)
  | _ => True

theorem QueueAlike.getSingleSubmission (h : QueueAlike queueName t u) {timeField : TimeField}
    {plan : QueryPlan} : getSingleSubmission cfg timeField plan now queueName t =
      getSingleSubmission cfg timeField plan now queueName u := by
  rw [Xqueue.getSingleSubmission, Xqueue.getSingleSubmission,
    h.filter_eq fun r hr => (isAvailable_iff.1 hr).2.1]

theorem queueName_of_getSingleSubmission {timeField : TimeField} {plan : QueryPlan}
    (h : getSingleSubmission cfg timeField plan now queueName t = some s) : s.queueName = queueName :=
  (isAvailable_iff.1 (isAvailable_of_getSingleSubmission h)).2.1

theorem instance_pulled {request : HttpRequest} : Instance s (s.pulled cfg request now) :=
  ⟨rfl, rfl⟩

theorem QueueAlike.servePull (h : QueueAlike queueName t u) (hs : s ∈ t) (hs' : s ∈ u) (hc : Instance s c)
    (fetch : HttpResult) :
    EndsAlike queueName (servePull cfg fetch now c t) (servePull cfg fetch now c u) := by
  unfold Xqueue.servePull
  split
  · exact ⟨rfl, rfl, h.save hs hs' hc now⟩
  · split
    · exact ⟨rfl, rfl, h⟩
    · exact ⟨rfl, rfl, h.save hs hs' hc now⟩

theorem QueueAlike.getSubmission (h : QueueAlike queueName t u) {env : PullEnv} {request : HttpRequest}
    (hchecks : getSubmissionChecks cfg request = .ok queueName) :
    EndsAlike queueName (getSubmission cfg env request t) (getSubmission cfg env request u) := by
  have hsame : getSingleUnretiredSubmission cfg env.plan env.queryTime queueName t =
      getSingleUnretiredSubmission cfg env.plan env.queryTime queueName u := h.getSingleSubmission
  cases hget : getSingleUnretiredSubmission cfg env.plan env.queryTime queueName t with
  | none =>
      simp only [Xqueue.getSubmission, hchecks, ← hsame, hget]
      exact ⟨rfl, rfl, h⟩
  | some s =>
      have hs := mem_of_getSingleSubmission hget
      have hs' : s ∈ u := h.mem hs (queueName_of_getSingleSubmission hget)
      simp only [Xqueue.getSubmission, hchecks, ← hsame, hget, pull_eq_ok]
      exact h.servePull hs hs' instance_pulled env.fetch

theorem instance_of_putResult {env : WorkEnv} {request : HttpRequest} {graderReply : PyStr}
    (h : (s.putResult cfg env request graderReply).2 = .ok c) : Instance s c := by
  have hwork : (Task.put request graderReply).work cfg env s =
      ((s.putResult cfg env request graderReply).1, .ok c) := Prod.ext rfl h
  exact instance_of_work hwork

theorem instance_of_push (cfg : Config) {env : WorkEnv} {worker : Worker}
    (h : (worker.work env s).2 = .ok c) : Instance s c := by
  have hwork : (Task.push worker).work cfg env s = ((worker.work env s).1, .ok c) := Prod.ext rfl h
  exact instance_of_work hwork

/-- An event that concerns the queue does the same for it on both tables. -/
theorem run_alike (h : QueueAlike queueName t u) (hone : e.OneQueue queueName)
    (hconcerns : e.Concerns cfg queueName t) :
    e.Concerns cfg queueName u ∧ (e.run cfg t).2 = (e.run cfg u).2 ∧
      QueueAlike queueName (e.run cfg t).1 (e.run cfg u).1 := by
  cases e with
  | submit storage env request => exact ⟨trivial, h.submit storage env request⟩
  | getSubmission env request =>
      have hends : EndsAlike queueName (getSubmission cfg env request t) (getSubmission cfg env request u) :=
        h.getSubmission hconcerns
      exact ⟨hconcerns, hends.outputs, hends.table⟩
  | putResult env request =>
      rcases hconcerns with ⟨s, graderReply, hchecks, hname⟩
      rcases putResultChecks_eq_ok.1 hchecks with ⟨hauth, hmethod, hs, haccepted⟩
      have hs' : s ∈ u := h.mem hs hname
      have hchecks' : putResultChecks request u = .ok (s, graderReply) :=
        putResultChecks_eq_ok.2 ⟨hauth, hmethod, hs', haccepted⟩
      have hends : EndsAlike queueName ((s.putResult cfg env request graderReply).finish env.now t)
          ((s.putResult cfg env request graderReply).finish env.now u) :=
        h.finish hs hs' (fun _ => instance_of_putResult) env.now
      refine ⟨⟨s, graderReply, hchecks', hname⟩, ?_⟩
      simp only [Event.run, Ended.observed, Xqueue.putResult, hchecks, hchecks']
      exact ⟨hends.outputs, hends.table⟩
  | deliverSubmission env worker =>
      rcases hconcerns with rfl
      -- the worker selects the same row on both tables
      have hsame : getSingleUnpushedSubmission cfg env.plan env.queryTime worker.queueName t =
          getSingleUnpushedSubmission cfg env.plan env.queryTime worker.queueName u :=
        h.getSingleSubmission
      refine ⟨rfl, ?_⟩
      simp only [Event.run, Ended.observed, Worker.deliverSubmission, ← hsame]
      cases hget : getSingleUnpushedSubmission cfg env.plan env.queryTime worker.queueName t with
      | none => exact ⟨rfl, h⟩
      | some s =>
          have hs := mem_of_getSingleSubmission hget
          have hs' : s ∈ u := h.mem hs (queueName_of_getSingleSubmission hget)
          have hends : EndsAlike worker.queueName
              ((worker.work env.toWorkEnv s).finish env.returnTime t)
              ((worker.work env.toWorkEnv s).finish env.returnTime u) :=
            h.finish hs hs' (fun _ => instance_of_push cfg) env.returnTime
          exact ⟨hends.outputs, hends.table⟩
  | retireFailedSubmissions env force queueNames =>
      -- every pass is over the queue, perhaps the same rows several times
      have hscopes : ∀ scope ∈ scopesOf queueNames, scope = some queueName := by
        intro scope hscope
        rw [scopesOf, if_neg hone.1] at hscope
        rcases List.mem_map.1 hscope with ⟨name, hmem, rfl⟩
        rw [hone.2 hconcerns name hmem]
      have hends : EndsAlike queueName (retireFailedSubmissions cfg env force queueNames t)
          (retireFailedSubmissions cfg env force queueNames u) := h.retirePasses hscopes
      exact ⟨hconcerns, hends.outputs, hends.table⟩
  | retireOldSubmissions env name retireBefore =>
      rcases hconcerns with rfl
      refine ⟨rfl, ?_⟩
      simp only [Event.run, Ended.observed, Xqueue.retireOldSubmissions]
      cases retireBound cfg retireBefore with
      | error e => exact ⟨rfl, h⟩
      | ok bound =>
          have hrows : t.rows.filter (isOldIn name bound) = u.rows.filter (isOldIn name bound) :=
            h.filter_eq fun r hr => queueName_of_isOldIn hr
          have hu : ∀ s ∈ (env.plan 0).order (t.rows.filter (isOldIn name bound)), s ∈ u := by
            intro s hs
            rw [hrows] at hs
            exact (mem_order_filter.1 hs).1
          have hends : EndsAlike name
              (saveEach (fun s => s.retireOld (env.lms 0 s.id)) env.now
                ((env.plan 0).order (t.rows.filter (isOldIn name bound))) t)
              (saveEach (fun s => s.retireOld (env.lms 0 s.id)) env.now
                ((env.plan 0).order (t.rows.filter (isOldIn name bound))) u) :=
            QueueAlike.saveEach (fun s c => instance_of_retireOld s c) h
              (fun s hs => (mem_order_filter.1 hs).1) hu nodup_order
          simp only [← hrows]
          exact ⟨hends.outputs, hends.table⟩

/-- An event that does not concern the queue changes nothing that it has. -/
theorem run_left (h : QueueAlike queueName t u) (hone : e.OneQueue queueName)
    (hconcerns : ¬ e.Concerns cfg queueName t) : QueueAlike queueName (e.run cfg t).1 u := by
  cases e with
  | submit => exact absurd trivial hconcerns
  | getSubmission env request =>
      have hcases := pulled_getSubmission cfg env request t
      simp only [Event.run, Ended.observed]
      generalize getSubmission cfg env request t = ended at hcases
      cases hcases with
      | refused => exact h
      | empty => exact h
      | @served name s hchecks hget =>
          -- the row that is leased is one of the queue that the request names
          have hname : s.queueName ≠ queueName := by
            rw [queueName_of_getSingleSubmission hget]
            rintro rfl
            exact hconcerns hchecks
          have hsaved := h.save_left (mem_of_getSingleSubmission hget) hname
            (@instance_pulled cfg s env.pullTime request) env.pullTime
          unfold servePull
          split
          · exact hsaved
          · split
            · exact h
            · exact hsaved
  | putResult env request =>
      simp only [Event.run, Ended.observed, Xqueue.putResult]
      cases hchecks : putResultChecks request t with
      | error result => exact h
      | ok pair =>
          rcases pair with ⟨s, graderReply⟩
          rcases putResultChecks_eq_ok.1 hchecks with ⟨-, -, hs, -⟩
          have hname : s.queueName ≠ queueName := fun hname =>
            hconcerns ⟨s, graderReply, hchecks, hname⟩
          have hends : QueueAlike queueName
              ((s.putResult cfg env request graderReply).finish env.now t).table u :=
            h.finish_left hs hname (fun _ => instance_of_putResult) env.now
          exact hends
  | deliverSubmission env worker =>
      simp only [Event.run, Ended.observed, Worker.deliverSubmission]
      cases hget : getSingleUnpushedSubmission cfg env.plan env.queryTime worker.queueName t with
      | none => exact h
      | some s =>
          have hname : s.queueName ≠ queueName := by
            rw [queueName_of_getSingleSubmission hget]
            exact hconcerns
          have hends : QueueAlike queueName
              ((worker.work env.toWorkEnv s).finish env.returnTime t).table u :=
            h.finish_left (mem_of_getSingleSubmission hget) hname (fun _ => instance_of_push cfg)
              env.returnTime
          exact hends
  | retireFailedSubmissions env force queueNames =>
      have hscopes : ∀ scope ∈ scopesOf queueNames, ∃ name, scope = some name ∧ name ≠ queueName := by
        intro scope hscope
        rw [scopesOf, if_neg hone.1] at hscope
        rcases List.mem_map.1 hscope with ⟨name, hmem, rfl⟩
        refine ⟨name, rfl, ?_⟩
        rintro rfl
        exact hconcerns hmem
      exact h.retirePasses_left hscopes
  | retireOldSubmissions env name retireBefore =>
      simp only [Event.run, Ended.observed, Xqueue.retireOldSubmissions]
      cases retireBound cfg retireBefore with
      | error e => exact h
      | ok bound =>
          have hnames : ∀ s ∈ (env.plan 0).order (t.rows.filter (isOldIn name bound)),
              s.queueName ≠ queueName := by
            intro s hs
            rw [queueName_of_isOldIn (mem_order_filter.1 hs).2]
            exact hconcerns
          have hends : QueueAlike queueName
              (saveEach (fun s => s.retireOld (env.lms 0 s.id)) env.now
                ((env.plan 0).order (t.rows.filter (isOldIn name bound))) t).table u :=
            QueueAlike.saveEach_left (fun s c => instance_of_retireOld s c) h
              (fun s hs => (mem_order_filter.1 hs).1) hnames nodup_order
          exact hends

theorem unwinds_queue (cfg : Config) (queueName : PyStr) :
    Unwinds (atomicSystem cfg) (fun _ e => e.OneQueue queueName) (QueueAlike queueName)
      (fun t e => e.Concerns cfg queueName t) where
  own := by
    intro t u e t' o h hone hconcerns hstep
    simp only [atomicSystem, Option.some.injEq] at hstep
    rcases run_alike h hone hconcerns with ⟨hconcerns', houtputs, htable⟩
    rw [hstep] at houtputs htable
    exact ⟨hconcerns', (e.run cfg u).1, congrArg some (Prod.ext rfl houtputs.symm), htable⟩
  other := by
    intro t u e t' o h hone hconcerns hstep
    simp only [atomicSystem, Option.some.injEq] at hstep
    have htable := run_left h hone hconcerns
    rwa [hstep] at htable

/-- A result that gets as far as naming a row names one of the queue. -/
def NamesRowOf (queueName : PyStr) (request : HttpRequest) (t : Table) : Prop :=
  ∀ valid, isValidReply request.nesting request.post = .ok (some valid) →
    ∃ s ∈ t, (s.id : Int) = valid.submissionId ∧ s.queueName = queueName

/-- A client of the queue gets the same replies on both tables; a result is accepted on both, or
refused alike. -/
structure LooksAlike (cfg : Config) (queueName : PyStr) (t u : Table) : Prop where
  length : ∀ now, getQueueLength cfg now queueName t = getQueueLength cfg now queueName u
  pull : ∀ env request, getSubmissionChecks cfg request = .ok queueName →
    (getSubmission cfg env request t).result = (getSubmission cfg env request u).result
  result : ∀ env request, NamesRowOf queueName request t →
    (putResult cfg env request t).result = (putResult cfg env request u).result

theorem QueueAlike.putResultChecks_eq (h : QueueAlike queueName t u) {request : HttpRequest}
    (hnames : NamesRowOf queueName request t) :
    putResultChecks request t = putResultChecks request u := by
  unfold putResultChecks
  rcases hvalid : isValidReply request.nesting request.post with e | _ | valid
  · rfl
  · rfl
  · rcases hnames valid hvalid with ⟨s, hs, hid, hname⟩
    have hget : getById valid.submissionId t = some s := getById_eq_some_iff.2 ⟨hs, hid⟩
    have hget' : getById valid.submissionId u = some s :=
      getById_eq_some_iff.2 ⟨h.mem hs hname, hid⟩
    simp only [hget, hget']

theorem queueName_of_accepted {request : HttpRequest} {graderReply : PyStr}
    (hnames : NamesRowOf queueName request t)
    (hchecks : putResultChecks request t = .ok (s, graderReply)) : s ∈ t ∧ s.queueName = queueName := by
  rcases putResultChecks_eq_ok.1 hchecks with ⟨-, -, hs, valid, hvalid, hid, -, -⟩
  rcases hnames valid hvalid with ⟨r, hr, hid', hname⟩
  have heq : s = r := KeyedTable.eq_of_key_eq hs hr (Int.ofNat.inj (hid.trans hid'.symm))
  exact ⟨hs, heq ▸ hname⟩

theorem QueueAlike.looksAlike (h : QueueAlike queueName t u) : LooksAlike cfg queueName t u where
  length := by
    intro now
    rw [getQueueLength, getQueueLength, List.countP_eq_length_filter, List.countP_eq_length_filter,
      h.filter_eq fun r hr => (isAvailable_iff.1 hr).2.1]
  pull := fun env request hchecks => (h.getSubmission hchecks).result
  result := by
    intro env request hnames
    have hsame := h.putResultChecks_eq hnames
    cases hchecks : putResultChecks request t with
    | error result => simp only [Xqueue.putResult, ← hsame, hchecks]
    | ok pair =>
        rcases pair with ⟨s, graderReply⟩
        rcases queueName_of_accepted hnames hchecks with ⟨hs, hname⟩
        have hends : EndsAlike queueName ((s.putResult cfg env request graderReply).finish env.now t)
            ((s.putResult cfg env request graderReply).finish env.now u) :=
          h.finish hs (h.mem hs hname) (fun _ => instance_of_putResult) env.now
        simp only [Xqueue.putResult, ← hsame, hchecks, hends.result]

/-- The events that concern the queue, on their own, go the same way: their outputs are those that
they had among the others, the rows of the queue are the same at the end, and its clients get the same
replies. -/
theorem queue_isolated
    (h : Run (atomicSystem cfg) (fun _ e => e.OneQueue queueName) KeyedTable.empty es os t) :
    ∃ es' os' u,
      Own (atomicSystem cfg) (fun t e => e.Concerns cfg queueName t) KeyedTable.empty es es' os' t ∧
      Run (atomicSystem cfg) (fun t e => e.Concerns cfg queueName t) KeyedTable.empty es' os' u ∧
      rowsOf queueName t = rowsOf queueName u ∧ LooksAlike cfg queueName t u := by
  have hstart : QueueAlike queueName (KeyedTable.empty : Table) KeyedTable.empty := ⟨rfl, rfl⟩
  rcases h.purged (unwinds_queue cfg queueName) hstart with ⟨es', os', u, hown, hrun, hsame⟩
  exact ⟨es', os', u, hown, hrun, hsame.rows, hsame.looksAlike⟩

/-- The settings with a second pull queue. -/
def twoQueues : Config :=
  { devSettings with xqueues := [(py "test-pull", none), (py "tmp", none)] }

theorem encodable_answer : PyStr.Encodable (py "answer") := by
  decide

/-- A submission of the one queue is graded while a submission of the other is pulled. -/
def gradedBeside : List Event :=
  let job := fun url name => Event.submit pathStorage ⟨clockAt 0, clockAt 0, true⟩
    (submitJob url name (py "answer") encodable_answer)
  [job (py "/lms/1/problem") (py "tmp"), job (py "/lms/2/problem") (py "test-pull"),
    .getSubmission ⟨.insertion, clockAt 1, clockAt 1, .timeout⟩ (pullRequest (py "tmp")),
    .getSubmission ⟨.insertion, clockAt 2, clockAt 2, .timeout⟩ (pullRequest (py "test-pull")),
    .putResult ⟨clockAt 3, clockAt 3, .timeout, fun _ => .response 200 []⟩
      (resultWith (py "eaaa7868ba5da1c0b5be0b5b4fc824e9"))]

theorem gradedBeside_runs : ((atomicSystem twoQueues).exec KeyedTable.empty gradedBeside).isSome := by
  decide +kernel

theorem queue_isolated_gradedBeside :
    let next := ((atomicSystem twoQueues).exec KeyedTable.empty gradedBeside).get gradedBeside_runs
    (∃ es os u,
      Own (atomicSystem twoQueues) (fun t e => e.Concerns twoQueues (py "test-pull") t) KeyedTable.empty
        gradedBeside es os next.1 ∧
      Run (atomicSystem twoQueues) (fun t e => e.Concerns twoQueues (py "test-pull") t) KeyedTable.empty
        es os u ∧ rowsOf (py "test-pull") next.1 = rowsOf (py "test-pull") u ∧
        LooksAlike twoQueues (py "test-pull") next.1 u) ∧
      next.1.rows.map (fun r => (r.queueName, r.lmsAck)) = [(py "tmp", true), (py "test-pull", false)] := by
  have hone : ∀ e ∈ gradedBeside, ∀ t : Table, e.OneQueue (py "test-pull") := by
    intro e he _
    simp only [gradedBeside, List.mem_cons, List.not_mem_nil, or_false] at he
    rcases he with rfl | rfl | rfl | rfl | rfl <;> trivial
  have hrun := ((run_get gradedBeside_runs).of_forall_mem hone).mono fun t e h => h t
  exact ⟨queue_isolated hrun, by decide +kernel⟩

end Xqueue
