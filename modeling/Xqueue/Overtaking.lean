import Xqueue.Library.Budget
import Xqueue.PollLoop

/-!
# Overtaking — how many results come before a submission

A grader pulls the submission of its queue that has arrived first.  A result that does not reach the
LMS leaves its submission in the queue, or brings it back there, so that the submissions that have
arrived before another one may go before it several times.

* `turnsLeft` : the results that these submissions can still take;
* `Spent`, `spent_run` : no operation gives them more;
* `Thread`, `gradingSystem` : `ActiveGraderStub.poll` request by request, among all other operations;
* `overtaken_le_turnsLeft` : as long as a submission is there to be pulled whenever the grader polls,
  no more of its results are accepted than that.
-/

namespace Xqueue

open Library
open Library.System

variable {cfg : Config} {grader : ActiveGrader} {queueName : PyStr} {time : DateTime}
  {s c r : Submission} {t u v : Table} {os : List Output} {e : Event}

/-! ## Turns -/

def arrivedBy (queueName : PyStr) (time : DateTime) (s : Submission) : Bool :=
  s.queueName == queueName && decide (s.arrivalTime ≤ time)

theorem arrivedBy_iff :
    arrivedBy queueName time s = true ↔ s.queueName = queueName ∧ s.arrivalTime ≤ time := by
  simp [arrivedBy]

/-- Each failure that the row has left can go into a result that keeps it in the queue, or into one
that brings it back after it has been retired. -/
def Submission.turns (cfg : Config) (s : Submission) : Nat :=
  2 * (cfg.maxNumberOfFailures + 1 - s.numFailures) + if s.retired then 0 else 1

def turnsIn (cfg : Config) (queueName : PyStr) (time : DateTime) (s : Submission) : Nat :=
  if arrivedBy queueName time s then s.turns cfg else 0

/-- The turns of the rows of the queue that have arrived by the time. -/
def turnsLeft (cfg : Config) (queueName : PyStr) (time : DateTime) (t : Table) : Nat :=
  t.total (turnsIn cfg queueName time)

/-- These rows stay, and none of them is retired without a turn. -/
abbrev Spent (cfg : Config) (queueName : PyStr) (time : DateTime) (t u : Table) : Prop :=
  KeyedTable.Spends (turnsIn cfg queueName time) (fun r => arrivedBy queueName time r = true)
    (fun r => r.retired = false) t u

theorem turns_le (cfg : Config) (s : Submission) : s.turns cfg ≤ 2 * cfg.maxNumberOfFailures + 3 := by
  unfold Submission.turns
  split <;> omega

theorem turnsLeft_le (cfg : Config) (queueName : PyStr) (time : DateTime) (t : Table) :
    turnsLeft cfg queueName time t ≤
      t.rows.countP (arrivedBy queueName time) * (2 * cfg.maxNumberOfFailures + 3) := by
  refine KeyedTable.total_le_countP t ?_ ?_
  · intro r hr
    simp [turnsIn, hr]
  · intro r
    unfold turnsIn
    split
    · exact turns_le cfg r
    · exact Nat.zero_le _

/-- A result for a row that is not retired costs a turn. -/
theorem turns_returned_lt (cfg : Config) (now : DateTime) (graderReply : PyStr) (acked : Bool)
    (hretired : s.retired = false) :
    (s.returned cfg now graderReply acked).turns cfg < s.turns cfg := by
  cases acked with
  | true => simp [Submission.turns, Submission.returned, hretired]
  | false =>
      simp only [Submission.turns, Submission.returned, hretired]
      by_cases hlimit : cfg.maxNumberOfFailures < s.numFailures + 1 <;> simp [hlimit] <;> omega

/-- A late result takes a turn of a row that it brings back. -/
theorem turns_returned_le (cfg : Config) (now : DateTime) (graderReply : PyStr) (acked : Bool)
    (s : Submission) : (s.returned cfg now graderReply acked).turns cfg ≤ s.turns cfg := by
  cases hretired : s.retired with
  | false => exact (turns_returned_lt cfg now graderReply acked hretired).le
  | true =>
      cases acked with
      | true => simp [Submission.turns, Submission.returned, hretired]
      | false =>
          simp only [Submission.turns, Submission.returned, hretired]
          by_cases hlimit : cfg.maxNumberOfFailures < s.numFailures + 1 <;> simp [hlimit] <;> omega

/-- A row that is retired takes its turn. -/
theorem turns_retired_lt (hretired : s.retired = false) (hc : c.retired = true)
    (hcount : s.numFailures ≤ c.numFailures) : c.turns cfg < s.turns cfg := by
  simp only [Submission.turns, hretired, hc]
  simp
  omega

theorem turns_of_work {task : Task} {env : WorkEnv} (hwork : task.work cfg env s = (os, .ok c))
    (hopen : s.retired = false ∨ ∃ request graderReply, task = .put request graderReply) :
    c.turns cfg ≤ s.turns cfg ∧
      (s.retired = false → c.retired = false ∨ c.turns cfg < s.turns cfg) := by
  have hretires : s.retired = false → c.retired = true → s.numFailures ≤ c.numFailures →
      c.turns cfg ≤ s.turns cfg ∧
        (s.retired = false → c.retired = false ∨ c.turns cfg < s.turns cfg) := by
    intro hs hc hcount
    have hlt : c.turns cfg < s.turns cfg := turns_retired_lt hs hc hcount
    exact ⟨hlt.le, fun _ => Or.inr hlt⟩
  have hstored : (∀ request graderReply, task ≠ .put request graderReply) → s.retired = false := by
    intro hput
    rcases hopen with hs | ⟨request, graderReply, heq⟩
    · exact hs
    · exact absurd heq (hput request graderReply)
  cases writes_of_work hwork with
  | pulled request => exact ⟨le_refl _, Or.inl⟩
  | returned request graderReply acked hout =>
      exact ⟨turns_returned_le cfg env.now graderReply acked s,
        fun hs => Or.inr (turns_returned_lt cfg env.now graderReply acked hs)⟩
  | graded worker graderReply acked hgrader hout => exact hretires (hstored (by simp)) rfl (le_refl _)
  | ungraded worker message acked hgrader hout => exact hretires (hstored (by simp)) rfl (Nat.le_succ _)
  | forced => exact hretires (hstored (by simp)) rfl (le_refl _)
  | notified acked hout =>
      have hs := hstored (by simp)
      cases acked with
      | true => exact hretires hs rfl (le_refl _)
      | false =>
          -- a notice that has failed leaves the row in the queue
          refine ⟨?_, fun _ => Or.inl rfl⟩
          simp [Submission.turns, Submission.notified, hs]
  | retiredOld acked hout => exact hretires (hstored (by simp)) rfl (le_refl _)

theorem arrivedBy_of_work {task : Task} {env : WorkEnv} (hwork : task.work cfg env s = (os, .ok c)) :
    arrivedBy queueName time c = arrivedBy queueName time s := by
  cases writes_of_work hwork <;> rfl

theorem turnsIn_le (hin : arrivedBy queueName time c = arrivedBy queueName time s)
    (hle : c.turns cfg ≤ s.turns cfg) : turnsIn cfg queueName time c ≤ turnsIn cfg queueName time s := by
  rw [turnsIn, turnsIn, hin]
  split
  · exact hle
  · exact le_refl _

theorem turnsIn_lt (hin : arrivedBy queueName time c = arrivedBy queueName time s)
    (hs : arrivedBy queueName time s = true) (hlt : c.turns cfg < s.turns cfg) :
    turnsIn cfg queueName time c < turnsIn cfg queueName time s := by
  rwa [turnsIn, turnsIn, hin, if_pos hs, if_pos hs]

/-! ## What the operations spend -/

theorem spent_moved (hm : Moved cfg (e.Performs cfg t) u v os)
    (hlater : ∀ request row, .inserted request row ∈ os → time < row.arrivalTime) :
    Spent cfg queueName time u v := by
  cases hm with
  | raised => exact KeyedTable.Spends.refl u
  | undone => exact KeyedTable.Spends.refl u
  | @saved task env s c os fetch now hs hperforms hwork =>
      have hopen : s.retired = false ∨ ∃ request graderReply, task = .put request graderReply := by
        rcases performs_cases hperforms with hretired | ⟨request, graderReply, -, htask, -⟩
        · exact Or.inl hretired
        · exact Or.inr ⟨request, graderReply, htask⟩
      have hin : arrivedBy queueName time c = arrivedBy queueName time s := arrivedBy_of_work hwork
      rcases turns_of_work hwork hopen with ⟨hle, hcloses⟩
      rw [save_of_mem now hs (id_of_work hwork)]
      exact KeyedTable.Spends.put hs (id_of_work hwork) (turnsIn_le hin hle) hin.trans
        fun hins hs => (hcloses hs).imp_right (turnsIn_lt hin hins)
  | superseded callback =>
      -- only rows that are not retired are superseded
      have hlt : ∀ r, isPrior callback r = true → r.retire.turns cfg < r.turns cfg := by
        intro r hprior
        simp only [isPrior, Bool.and_eq_true, Bool.not_eq_true'] at hprior
        exact turns_retired_lt hprior.2 rfl (le_refl _)
      exact KeyedTable.Spends.updateWhere (fun r hprior => turnsIn_le rfl (hlt r hprior).le)
        (fun r hin => hin) fun r hprior hin _ => Or.inr (turnsIn_lt rfl hin (hlt r hprior))
  | @inserted request valid callback s3Urls s3Keys now hchecks hcallback hurls =>
      -- the new row arrives later, and has no turn in the account
      refine KeyedTable.Spends.insert ?_
      have hlate := hlater _ _ (List.mem_singleton_self _)
      exact if_neg fun hin => not_le.2 hlate (arrivedBy_iff.1 hin).2

theorem spent_run (cfg : Config) (queueName : PyStr) (t : Table)
    (hlater : ∀ request row, .inserted request row ∈ (e.run cfg t).2 → time < row.arrivalTime) :
    Spent cfg queueName time t (e.run cfg t).1 := by
  refine event_invariant (I := fun os u => (∀ request row, .inserted request row ∈ os →
    time < row.arrivalTime) → Spent cfg queueName time t u) (fun _ => KeyedTable.Spends.refl t) ?_ hlater
  intro os u v o hI hm hlater
  exact (hI fun request row hmem => hlater request row (List.mem_append_left o hmem)).trans
    (spent_moved hm fun request row hmem => hlater request row (List.mem_append_right os hmem))

/-! ## A grader among others -/

/-- Where the thread of the grader stands. -/
inductive Thread where
  | polling
  | holding (submission : Message)
  /-- An exception has ended it. -/
  | ended

structure Grading where
  table : Table
  thread : Thread

inductive GradingEvent where
  | pull (env : PullEnv)
  | push (env : WorkEnv)
  | other (e : Event)

/-- After `_pop_submission`. -/
def Thread.ofPopped : Except PyExc (Option Message) → Thread
  | .error _ => .ended
  | .ok none => .polling
  | .ok (some submission) => .holding submission

/-- After `_push_response`, and what it has returned. -/
def Thread.ofPushed : Except PyExc Bool → Thread × List Bool
  | .error _ => (.ended, [])
  | .ok accepted => (.polling, [accepted])

/-- The two requests of `poll`, and the operations of all others. -/
def Grading.step (cfg : Config) (grader : ActiveGrader) (st : Grading) :
    GradingEvent → Option (Grading × List Bool)
  | .pull env =>
      match st.thread with
      | .polling =>
          let pulled := getSubmission cfg env (pullRequest grader.queueName) st.table
          some (⟨pulled.table, Thread.ofPopped (popSubmission pulled.result)⟩, [])
      | _ => none
  | .push env =>
      match st.thread with
      | .holding submission =>
          let request := pushRequest (grader.responseForSubmission submission)
          let returned := putResult cfg env request st.table
          let (thread, answer) := Thread.ofPushed (pushResponse returned.result)
          some (⟨returned.table, thread⟩, answer)
      | _ => none
  | .other e => some (⟨(e.run cfg st.table).1, st.thread⟩, [])

def gradingSystem (cfg : Config) (grader : ActiveGrader) : System Grading GradingEvent Bool where
  step := Grading.step cfg grader

variable {st st' : Grading} {answers o : List Bool} {env : WorkEnv} {submission : Message}

/-- All that a step can do. -/
inductive GradingStep (cfg : Config) (grader : ActiveGrader) (st : Grading) :
    GradingEvent → Grading → List Bool → Prop
  | pulled {env : PullEnv} {ended : Ended HttpResponse} : st.thread = .polling →
      getSubmission cfg env (pullRequest grader.queueName) st.table = ended →
        GradingStep cfg grader st (.pull env)
          ⟨ended.table, Thread.ofPopped (popSubmission ended.result)⟩ []
  | pushed {env : WorkEnv} {submission : Message} {ended : Ended HttpResponse} :
      st.thread = .holding submission →
      putResult cfg env (pushRequest (grader.responseForSubmission submission)) st.table = ended →
        GradingStep cfg grader st (.push env)
          ⟨ended.table, (Thread.ofPushed (pushResponse ended.result)).1⟩
          (Thread.ofPushed (pushResponse ended.result)).2
  | other {e : Event} : GradingStep cfg grader st (.other e) ⟨(e.run cfg st.table).1, st.thread⟩ []

theorem gradingStep_of_step {a : GradingEvent} (h : (gradingSystem cfg grader).step st a = some (st', o)) :
    GradingStep cfg grader st a st' o := by
  cases a with
  | pull env =>
      cases hthread : st.thread <;>
        simp only [gradingSystem, Grading.step, hthread, Option.some.injEq, Prod.mk.injEq, reduceCtorEq] at h
      rcases h with ⟨rfl, rfl⟩
      exact GradingStep.pulled hthread rfl
  | push env =>
      cases hthread : st.thread <;>
        simp only [gradingSystem, Grading.step, hthread, Option.some.injEq, Prod.mk.injEq, reduceCtorEq] at h
      rcases h with ⟨rfl, rfl⟩
      exact GradingStep.pushed hthread rfl
  | other e =>
      simp only [gradingSystem, Grading.step, Option.some.injEq, Prod.mk.injEq] at h
      rcases h with ⟨rfl, rfl⟩
      exact GradingStep.other

theorem ofPopped_eq_holding {popped : Except PyExc (Option Message)} :
    Thread.ofPopped popped = .holding submission ↔ popped = .ok (some submission) := by
  rcases popped with e | _ | submission' <;> simp [Thread.ofPopped]

/-- What the grader sends inserts no row. -/
theorem not_inserted_pull {env : PullEnv} {request request' : HttpRequest} {row : Submission} :
    .inserted request' row ∉ (getSubmission cfg env request t).outputs := by
  have hcases := pulled_getSubmission cfg env request t
  generalize getSubmission cfg env request t = ended at hcases
  cases hcases with
  | refused => exact List.not_mem_nil
  | empty => exact List.not_mem_nil
  | served =>
      unfold servePull
      split
      · simp
      · split <;> simp

theorem not_inserted_result {request request' : HttpRequest} {row : Submission} :
    .inserted request' row ∉ (putResult cfg env request t).outputs := by
  have hcases := returned_putResult cfg env request t
  generalize putResult cfg env request t = ended at hcases
  cases hcases <;> simp

def arrivesAfter (time : DateTime) : Output → Bool
  | .inserted _ row => decide (time < row.arrivalTime)
  | _ => true

/-- When the grader polls, the submission is there to be pulled; new submissions arrive after it. -/
def staysAvailable (cfg : Config) (grader : ActiveGrader) (s : Submission) (st : Grading) :
    GradingEvent → Bool
  | .pull env => st.table.rows.any (fun r => r.id == s.id &&
      isAvailable cfg env.queryTime .pullTime grader.queueName r)
  | .push _ => true
  | .other e => (e.run cfg st.table).2.all (arrivesAfter s.arrivalTime)

theorem GradingStep.spent {a : GradingEvent} (h : GradingStep cfg grader st a st' o)
    (hok : staysAvailable cfg grader s st a = true) :
    Spent cfg queueName s.arrivalTime st.table st'.table := by
  cases h with
  | @pulled env _ hthread hended =>
      subst hended
      exact spent_run (e := .getSubmission env (pullRequest grader.queueName)) cfg queueName st.table
        fun request row hmem => absurd hmem not_inserted_pull
  | @pushed env submission _ hthread hended =>
      subst hended
      exact spent_run (e := .putResult env (pushRequest (grader.responseForSubmission submission))) cfg
        queueName st.table fun request row hmem => absurd hmem not_inserted_result
  | other =>
      refine spent_run cfg queueName st.table fun request row hmem => ?_
      exact of_decide_eq_true (List.all_eq_true.1 hok _ hmem)

theorem GradingStep.reachable {a : GradingEvent} (h : GradingStep cfg grader st a st' o)
    (ht : (atomicSystem cfg).Reachable KeyedTable.empty st.table) :
    (atomicSystem cfg).Reachable KeyedTable.empty st'.table := by
  cases h with
  | @pulled env _ hthread hended =>
      subst hended
      exact reachable_run (.getSubmission env (pullRequest grader.queueName)) ht
  | @pushed env submission _ hthread hended =>
      subst hended
      exact reachable_run (.putResult env (pushRequest (grader.responseForSubmission submission))) ht
  | other => exact reachable_run _ ht

/-! ## The submission that the grader holds -/

/-- The reply of a pull has the message of the row, or none. -/
theorem eq_message_of_popped {fetch : HttpResult} (hkey : PyStr.Encodable c.pullkey) (hread : Readable c)
    (hname : c.queueName = grader.queueName) (h : popSubmission (pullReply fetch c) = .ok (some submission)) :
    submission = c.message := by
  have hreplied := replied_pullReply fetch c
  generalize pullReply fetch c = reply at h hreplied
  cases hreplied with
  | raised e => cases h
  | inline hmarker hurls =>
      rw [popSubmission_pullPayload hread hkey hread.urls] at h
      cases h
      rfl
  | notFetched hpoints hfetch =>
      rw [fetchError, hname, popSubmission_failure (encodable_fetchText grader)] at h
      cases h
  | fetched hpoints hfetch hfiles =>
      have henc := encodable_of_filesServed hread.urls (FilesServed.fetched hpoints hfetch hfiles)
      rw [popSubmission_pullPayload hread hkey henc] at h
      cases h
      rfl

/-- A grader gets hold of the row that the pull has selected. -/
theorem exists_popped {env : PullEnv} (hmd5 : ∀ seed, cfg.md5 seed ≠ [] ∧ PyStr.Encodable (cfg.md5 seed))
    (hqueue : cfg.hasQueue grader.queueName = true) (hreadable : ∀ r ∈ t, Readable r)
    (h : popSubmission (getSubmission cfg env (pullRequest grader.queueName) t).result =
      .ok (some submission)) :
    ∃ s, getSingleUnretiredSubmission cfg env.plan env.queryTime grader.queueName t = some s ∧
      submission = (s.pulled cfg (pullRequest grader.queueName) env.pullTime).message := by
  have hchecks := getSubmissionChecks_pullRequest hqueue
  cases hget : getSingleUnretiredSubmission cfg env.plan env.queryTime grader.queueName t with
  | none =>
      simp only [getSubmission, hchecks, hget, popSubmission_failure (encodable_emptyText grader)] at h
      cases h
  | some s =>
      have hread : Readable s := hreadable s (mem_of_getSingleSubmission hget)
      have hname : s.queueName = grader.queueName :=
        (isAvailable_iff.1 (isAvailable_of_getSingleSubmission hget)).2.1
      rw [result_getSubmission hchecks hget] at h
      exact ⟨s, rfl, eq_message_of_popped ((hmd5 _).2) (hread.pulled cfg _ _) hname h⟩

/-- A request that fails the checks of `put_result` is not answered with return code 0. -/
theorem pushResponse_of_refused {request : HttpRequest} {result : Except PyExc HttpResponse}
    (h : putResultChecks request t = .error result) : pushResponse result ≠ .ok true := by
  have hfailure : ∀ {text : PyStr}, PyStr.Encodable text →
      pushResponse (.ok (.failure text)) ≠ .ok true := by
    intro text htext
    rw [HttpResponse.failure, pushResponse_reply false (Json.Plain.str htext)]
    simp
  unfold putResultChecks at h
  split at h
  · cases h
    simp [pushResponse]
  · split at h
    · cases h
      exact hfailure (by decide)
    · split at h
      · cases h
        simp [pushResponse]
      · cases h
        exact hfailure (by decide)
      · split at h
        · cases h
          exact hfailure (by decide)
        · split at h
          · cases h
          · cases h
            exact hfailure (by decide)

/-- A response that is accepted is one for the row that the grader holds. -/
theorem exists_returned (hbound : c.id ≤ maxId) (hkey : PyStr.Encodable c.pullkey) (hecho : grader.Echoes)
    (h : pushResponse (putResult cfg env (pushRequest (grader.responseForSubmission c.message)) t).result =
      .ok true) :
    ∃ r ∈ t, r.id = c.id ∧ ∃ graderReply acked,
      (putResult cfg env (pushRequest (grader.responseForSubmission c.message)) t).table =
        save env.now (r.returned cfg env.now graderReply acked) t := by
  have hcases := returned_putResult cfg env (pushRequest (grader.responseForSubmission c.message)) t
  generalize putResult cfg env (pushRequest (grader.responseForSubmission c.message)) t = ended
    at h hcases
  cases hcases with
  | refused hchecks => exact absurd h (pushResponse_of_refused hchecks)
  | raised hchecks hout => cases h
  | @saved r graderReply acked hchecks hout =>
      rcases putResultChecks_eq_ok.1 hchecks with ⟨-, -, hr, valid, hvalid, hid, -, -⟩
      -- the grader echoes the header of the pull, so the result is for the row that it has pulled
      have hheader : QueryDict.get? (pushRequest (grader.responseForSubmission c.message)).post
          (py "xqueue_header") = some (extHeader c.id c.pullkey) := by
        show some (Json.dumps (grader.responseForSubmission c.message).xqueueHeader) = _
        rw [hecho]
        rfl
      have hpos := (pushRequest (grader.responseForSubmission c.message)).nesting_pos
      have hvalid' := isValidReply_extHeader hpos hbound hheader rfl hkey
      rw [hvalid'] at hvalid
      cases hvalid
      exact ⟨r, hr, Int.ofNat.inj hid, graderReply, acked, rfl⟩

/-- A response that is accepted for a row that is not retired costs a turn. -/
theorem turnsLeft_pushed_lt (hbound : c.id ≤ maxId) (hkey : PyStr.Encodable c.pullkey) (hecho : grader.Echoes)
    (h : pushResponse (putResult cfg env (pushRequest (grader.responseForSubmission c.message)) t).result =
      .ok true)
    (hr : r ∈ t) (hid : r.id = c.id) (hin : arrivedBy queueName time r = true)
    (hretired : r.retired = false) :
    turnsLeft cfg queueName time
        (putResult cfg env (pushRequest (grader.responseForSubmission c.message)) t).table <
      turnsLeft cfg queueName time t := by
  rcases exists_returned hbound hkey hecho h with ⟨r', hr', hid', graderReply, acked, htable⟩
  have heq : r' = r := KeyedTable.eq_of_key_eq hr' hr (hid'.trans hid.symm)
  subst heq
  have hsaved : save env.now (r'.returned cfg env.now graderReply acked) t =
      t.put (r'.returned cfg env.now graderReply acked) := save_of_mem env.now hr' rfl
  rw [htable, hsaved]
  exact KeyedTable.total_put_lt hr' rfl
    (turnsIn_lt rfl hin (turns_returned_lt cfg env.now graderReply acked hretired))

/-! ## The bound -/

/-- The accounts after the answers so far, when there have been `n` turns. -/
structure TurnInv (cfg : Config) (grader : ActiveGrader) (s : Submission) (n : Nat)
    (answers : List Bool) (st : Grading) : Prop where
  reachable : (atomicSystem cfg).Reachable KeyedTable.empty st.table
  own : ∃ r ∈ st.table, r.id = s.id ∧ arrivedBy grader.queueName s.arrivalTime r = true
  spent : answers.count true + turnsLeft cfg grader.queueName s.arrivalTime st.table ≤ n
  /-- The row that the grader holds is not retired, or something has been spent on it already. -/
  held : ∀ submission, st.thread = .holding submission → ∃ c : Submission, submission = c.message ∧
    PyStr.Encodable c.pullkey ∧ ∃ r ∈ st.table, r.id = c.id ∧
      arrivedBy grader.queueName s.arrivalTime r = true ∧
      (r.retired = false ∨
        answers.count true + turnsLeft cfg grader.queueName s.arrivalTime st.table < n)

theorem TurnInv.step {n : Nat} {a : GradingEvent}
    (hmd5 : ∀ seed, cfg.md5 seed ≠ [] ∧ PyStr.Encodable (cfg.md5 seed)) (hecho : grader.Echoes)
    (hqueue : cfg.hasQueue grader.queueName = true) (hI : TurnInv cfg grader s n answers st)
    (hok : staysAvailable cfg grader s st a = true) (h : GradingStep cfg grader st a st' o) :
    TurnInv cfg grader s n (answers ++ o) st' := by
  have hspent : Spent cfg grader.queueName s.arrivalTime st.table st'.table := h.spent hok
  have hreachable := h.reachable hI.reachable
  have hown : ∃ r ∈ st'.table, r.id = s.id ∧ arrivedBy grader.queueName s.arrivalTime r = true := by
    rcases hI.own with ⟨r, hr, hid, hin⟩
    rcases hspent.rows r hr hin with ⟨c, hc, hcid, hcin, -⟩
    exact ⟨c, hc, hcid.trans hid, hcin⟩
  have hle : answers.count true + turnsLeft cfg grader.queueName s.arrivalTime st'.table ≤ n :=
    hspent.budget hI.spent
  cases h with
  | @pulled env ended hthread hended =>
      rw [List.append_nil]
      refine ⟨hreachable, hown, hle, ?_⟩
      intro submission hholding
      subst hended
      rcases exists_popped hmd5 hqueue (readable_of_reachable hI.reachable)
        (ofPopped_eq_holding.1 hholding) with ⟨s₀, hget, rfl⟩
      have hs₀ : s₀ ∈ st.table := mem_of_getSingleSubmission hget
      have hav := isAvailable_iff.1 (isAvailable_of_getSingleSubmission hget)
      -- the submission is there, so the row that is selected has arrived no later
      have hin : arrivedBy grader.queueName s.arrivalTime s₀ = true := by
        rcases List.any_eq_true.1 hok with ⟨r, hr, hboth⟩
        rw [Bool.and_eq_true, beq_iff_eq] at hboth
        rcases hI.own with ⟨q, hq, hqid, hqin⟩
        have heq : q = r := KeyedTable.eq_of_key_eq hq hr (hqid.trans hboth.1.symm)
        subst heq
        exact arrivedBy_iff.2
          ⟨hav.2.1, (getSingleSubmission_le hget hr hboth.2).trans (arrivedBy_iff.1 hqin).2⟩
      rcases hspent.kept hI.spent hs₀ hin (Or.inl hav.2.2) with ⟨d, hd, hdid, hrest⟩
      exact ⟨_, rfl, (hmd5 _).2, d, hd, hdid, hrest⟩
  | @pushed env submission ended hthread hended =>
      rcases hI.held submission hthread with ⟨c, rfl, hkey, r, hr, hid, hin, hopen⟩
      subst hended
      cases hanswer : pushResponse
          (putResult cfg env (pushRequest (grader.responseForSubmission c.message)) st.table).result with
      | error e =>
          simp only [Thread.ofPushed, List.append_nil]
          exact ⟨hreachable, hown, hle, nofun⟩
      | ok accepted =>
          simp only [Thread.ofPushed]
          refine ⟨hreachable, hown, ?_, nofun⟩
          cases accepted with
          | false => simpa using hle
          | true =>
              -- the result takes a turn now, or another one has taken it since the pull
              have hlt : answers.count true + turnsLeft cfg grader.queueName s.arrivalTime
                  (putResult cfg env (pushRequest (grader.responseForSubmission c.message))
                    st.table).table < n := by
                rcases hopen with hretired | hlt
                · have hturn := turnsLeft_pushed_lt (hid ▸ (readable_of_reachable hI.reachable r hr).id) hkey hecho hanswer hr hid hin hretired
                  exact (Nat.add_lt_add_left hturn _).trans_le hI.spent
                · exact (Nat.add_le_add_left hspent.total_le _).trans_lt hlt
              rw [List.count_append, List.count_singleton_self, Nat.add_right_comm]
              exact hlt
  | other =>
      rw [List.append_nil]
      refine ⟨hreachable, hown, hle, ?_⟩
      intro submission hholding
      rcases hI.held submission hholding with ⟨c, rfl, hkey, r, hr, hid, hin, hopen⟩
      rcases hspent.kept hI.spent hr hin hopen with ⟨d, hd, hdid, hrest⟩
      exact ⟨c, rfl, hkey, d, hd, hdid.trans hid, hrest⟩

/-- As long as a submission is there to be pulled whenever the grader polls, each result that is
accepted uses up a turn of a submission that has arrived no later, so there are only so many.  In
between the other operations may do anything to the queue but insert submissions that arrive earlier. -/
theorem overtaken_le_turnsLeft
    (hmd5 : ∀ seed, cfg.md5 seed ≠ [] ∧ PyStr.Encodable (cfg.md5 seed)) (hecho : grader.Echoes)
    (hqueue : cfg.hasQueue grader.queueName = true)
    (ht : (atomicSystem cfg).Reachable KeyedTable.empty t) (hs : s ∈ t)
    (hname : s.queueName = grader.queueName) {as : List GradingEvent}
    (h : Run (gradingSystem cfg grader) (fun st a => staysAvailable cfg grader s st a = true)
      ⟨t, .polling⟩ as answers st) :
    answers.count true ≤ turnsLeft cfg grader.queueName s.arrivalTime t ∧
      turnsLeft cfg grader.queueName s.arrivalTime t ≤
        t.rows.countP (arrivedBy grader.queueName s.arrivalTime) * (2 * cfg.maxNumberOfFailures + 3) := by
  have hstart : TurnInv cfg grader s (turnsLeft cfg grader.queueName s.arrivalTime t) []
      ⟨t, .polling⟩ :=
    ⟨ht, ⟨s, hs, rfl, arrivedBy_iff.2 ⟨hname, le_refl _⟩⟩, by simp, nofun⟩
  have hI : TurnInv cfg grader s (turnsLeft cfg grader.queueName s.arrivalTime t) answers st := by
    refine h.invariant (I := fun answers st => TurnInv cfg grader s
      (turnsLeft cfg grader.queueName s.arrivalTime t) answers st) hstart ?_
    intro answers st a st' o hI hok hstep
    exact hI.step hmd5 hecho hqueue hok (gradingStep_of_step hstep)
  exact ⟨(Nat.le_add_right _ _).trans hI.spent, turnsLeft_le _ _ _ _⟩

/-- The second of two jobs. -/
def secondJob : Submission :=
  newSubmission (jobFor (py "/lms/2/problem"))
    ⟨.str (py "/lms/2/problem"), py "test-pull", jobHeader (py "/lms/2/problem") (py "test-pull"),
      py "answer"⟩ (py "/lms/2/problem") (py "{}") (py "{}") (clockAt 1) 2

theorem secondJob_mem : secondJob ∈ twoJobs := by
  have hmem : secondJob ∈ twoJobs.rows := by decide +kernel
  exact hmem

/-- Five polls, while the LMS does not take the results for the first job; in between a third job is
submitted. -/
def firstJobFails : List GradingEvent :=
  let pull := fun minute => GradingEvent.pull ⟨.insertion, clockAt minute, clockAt minute, .timeout⟩
  let push := fun minute result =>
    GradingEvent.push ⟨clockAt minute, clockAt minute, .timeout, fun _ => result⟩
  [pull 2, push 2 .timeout, pull 4, push 4 .timeout,
    .other (.submit pathStorage ⟨clockAt 5, clockAt 5, true⟩ (jobFor (py "/lms/3/problem"))),
    pull 6, push 6 .timeout, pull 8, push 8 .timeout, pull 10, push 10 (.response 200 [])]

theorem firstJobFails_runs : ((gradingSystem pushSettings testGrader).execWhile
    (staysAvailable pushSettings testGrader secondJob) ⟨twoJobs, .polling⟩ firstJobFails).isSome := by
  decide +kernel

/-- The first job goes four times before the second. -/
theorem overtaken_le_firstJobFails :
    let next := ((gradingSystem pushSettings testGrader).execWhile
      (staysAvailable pushSettings testGrader secondJob) ⟨twoJobs, .polling⟩ firstJobFails).get
      firstJobFails_runs
    (next.2.count true ≤ turnsLeft pushSettings (py "test-pull") (clockAt 1) twoJobs ∧
      turnsLeft pushSettings (py "test-pull") (clockAt 1) twoJobs ≤ 2 * 9) ∧
      next.2.count true = 5 ∧ next.1.table.rows.map (fun r => (r.retired, r.numFailures, r.lmsAck)) =
        [(true, 4, false), (true, 0, true), (false, 0, false)] :=
  ⟨overtaken_le_turnsLeft (fun seed => ⟨digest_ne_nil seed, encodable_digest seed⟩) (fun _ => rfl)
    (by decide) (reachable_tableAfter _ _ _) secondJob_mem rfl (run_get_while firstJobFails_runs),
    by decide +kernel⟩

end Xqueue
