import Xqueue.GraderStubs
import Xqueue.QueueLength
import Xqueue.RetirementCauses

/-!
# PollLoop — an active grader and its queue

An active grader polls its queue and returns a response for every submission that it gets.

* `Rounded`, `rounded_round` : what one round can do;
* `run_of_poll` : what a grader does is a run of the system;
* `poll_drains_queue` : as many rounds as there are submissions serve each of them once, in the
  order of their arrival, and leave the grader waiting;
* `failuresLeft`, `accepted_le_failuresLeft` : however the clock goes and whatever fails, a grader returns no
  more results than the failures that its submissions have left.
-/

namespace Xqueue

open Library
open Library.System

variable {cfg : Config} {grader : ActiveGrader} {env : PollEnv} {envs : List PollEnv}
  {s c r : Submission} {t u : Table} {now time : DateTime}

/-! ## One round -/

namespace ActiveGrader

/-- The row as the pull of a round saves it. -/
def pulledRow (cfg : Config) (env : PollEnv) (grader : ActiveGrader) (s : Submission) : Submission :=
  s.pulled cfg (pullRequest grader.queueName) env.pull.pullTime

def response (cfg : Config) (env : PollEnv) (grader : ActiveGrader) (s : Submission) : Message :=
  grader.responseForSubmission (grader.pulledRow cfg env s).message

def delivery (cfg : Config) (env : PollEnv) (grader : ActiveGrader) (s : Submission) : Delivery :=
  s.deliver env.put.lms (Json.dumps (grader.response cfg env s).xqueueBody)

/-- The row as the result of a round leaves it. -/
def graded (cfg : Config) (env : PollEnv) (grader : ActiveGrader) (s : Submission) (acked : Bool) :
    Submission :=
  (grader.pulledRow cfg env s).returned cfg env.put.now
    (Json.dumps (grader.response cfg env s).xqueueBody) acked

/-- What is observed of a round that returns a result. -/
def exchange (cfg : Config) (env : PollEnv) (grader : ActiveGrader) (s : Submission) : List Output :=
  [.pulled (grader.pulledRow cfg env s) (pullReply env.pull.fetch (grader.pulledRow cfg env s)),
    .accepted (pushRequest (grader.response cfg env s)) (grader.pulledRow cfg env s),
    .delivered (grader.delivery cfg env s)]

end ActiveGrader

/-- The output is a result that has been accepted for the submission. -/
def isAcceptedFor (id : Nat) : Output → Bool
  | .accepted _ row => row.id == id
  | _ => false

/-- What a round does. -/
inductive Rounded (cfg : Config) (env : PollEnv) (grader : ActiveGrader) (t : Table) : Ended Unit → Prop
  | idle (result : Except PyExc Unit) : Rounded cfg env grader t ⟨t, [], result⟩
  /-- The row is leased, but not handed out. -/
  | leased {s : Submission} (reply : Except PyExc HttpResponse) (result : Except PyExc Unit) : s ∈ t →
      Rounded cfg env grader t ⟨save env.pull.pullTime (grader.pulledRow cfg env s) t,
        [.pulled (grader.pulledRow cfg env s) reply], result⟩
  /-- The delivery of the result raises an exception. -/
  | raised {s : Submission} {e : PyExc} :
      getSingleUnretiredSubmission cfg env.pull.plan env.pull.queryTime grader.queueName t = some s →
      (grader.delivery cfg env s).outcome = .error e →
        Rounded cfg env grader t ⟨save env.pull.pullTime (grader.pulledRow cfg env s) t,
          grader.exchange cfg env s, .error e⟩
  | graded {s : Submission} {acked : Bool} :
      getSingleUnretiredSubmission cfg env.pull.plan env.pull.queryTime grader.queueName t = some s →
      (grader.delivery cfg env s).outcome = .ok acked →
        Rounded cfg env grader t ⟨save env.put.now (grader.graded cfg env s acked) t,
          grader.exchange cfg env s, .ok ()⟩

theorem popSubmission_failure {content : PyStr} (h : PyStr.Encodable content) :
    popSubmission (.ok (.failure content)) = .ok none := by
  rw [HttpResponse.failure, popSubmission_reply false (Json.Plain.str h)]
  rfl

/-- A pull that has selected a row saves it, and replies. -/
theorem getSubmission_of_selected (hqueue : cfg.hasQueue grader.queueName = true)
    (hget : getSingleUnretiredSubmission cfg env.pull.plan env.pull.queryTime grader.queueName t = some s) :
    getSubmission cfg env.pull (pullRequest grader.queueName) t =
      servePull cfg env.pull.fetch env.pull.pullTime (grader.pulledRow cfg env s) t := by
  simp only [getSubmission, getSubmissionChecks_pullRequest hqueue, hget, pull_eq_ok]
  rfl

/-- A round whose pull hands out a row returns a result for it. -/
theorem round_of_served {files : PyStr}
    (hmd5 : ∀ seed, cfg.md5 seed ≠ [] ∧ PyStr.Encodable (cfg.md5 seed)) (hecho : grader.Echoes)
    (hqueue : cfg.hasQueue grader.queueName = true) (hreadable : Readable s)
    (hget : getSingleUnretiredSubmission cfg env.pull.plan env.pull.queryTime grader.queueName t = some s)
    (hserved : FilesServed env.pull.fetch (grader.pulledRow cfg env s) files) :
    (∀ e, (grader.delivery cfg env s).outcome = .error e → grader.round cfg env t =
        ⟨save env.pull.pullTime (grader.pulledRow cfg env s) t, grader.exchange cfg env s, .error e⟩) ∧
      ∀ acked, (grader.delivery cfg env s).outcome = .ok acked → grader.round cfg env t =
        ⟨save env.put.now (grader.graded cfg env s acked) t, grader.exchange cfg env s, .ok ()⟩ := by
  have hs : s ∈ t := mem_of_getSingleSubmission hget
  have hkey : (grader.pulledRow cfg env s).pullkey ≠ [] ∧
      PyStr.Encodable (grader.pulledRow cfg env s).pullkey := hmd5 _
  have hmem : grader.pulledRow cfg env s ∈ save env.pull.pullTime (grader.pulledRow cfg env s) t :=
    (mem_save_of_mem (c := grader.pulledRow cfg env s) hs rfl).2 (Or.inl rfl)
  have hrow : Readable (grader.pulledRow cfg env s) := hreadable.pulled cfg _ _
  have hfiles : PyStr.Encodable files := encodable_of_filesServed hrow.urls hserved
  have hreply : pullReply env.pull.fetch (grader.pulledRow cfg env s) = _ :=
    pullReply_eq_success_iff.2 ⟨files, hserved, rfl⟩
  have hpulled := getSubmission_of_selected hqueue hget
  have hpop := popSubmission_pullPayload hrow hkey.2 hfiles
  rcases putResult_pushRequest cfg env.put hrow.id hkey.2 hkey.1
    (hecho (grader.pulledRow cfg env s).message) hmem with ⟨hraised, hsaved⟩
  constructor
  · intro e hout
    simp only [ActiveGrader.round, hpulled, servePull, hreply, hpop, hraised e hout, pushResponse,
      ActiveGrader.exchange]
    rfl
  · intro acked hout
    have hanswer := pushResponse_reply true (Json.Plain.str (by decide) : Json.Plain (.str []))
    -- the second save of the round overwrites the first
    have htwice : save env.put.now (grader.graded cfg env s acked)
        (save env.pull.pullTime (grader.pulledRow cfg env s) t) =
          save env.put.now (grader.graded cfg env s acked) t :=
      save_save hs rfl rfl
    rw [← htwice]
    simp only [ActiveGrader.round, hpulled, servePull, hreply, hpop, hsaved acked hout, hanswer,
      ActiveGrader.exchange]
    rfl

theorem encodable_emptyText (grader : ActiveGrader) :
    PyStr.Encodable (py "Queue '" ++ grader.queueName ++ py "' is empty") :=
  PyStr.encodable_append.2
    ⟨PyStr.encodable_append.2 ⟨by decide, grader.encodable_queueName⟩, by decide⟩

theorem encodable_fetchText (grader : ActiveGrader) :
    PyStr.Encodable (py "Error fetching submission for " ++ grader.queueName ++ py ". Please try again.") :=
  PyStr.encodable_append.2
    ⟨PyStr.encodable_append.2 ⟨by decide, grader.encodable_queueName⟩, by decide⟩

/-- A pull that has selected a row, by its reply. -/
theorem rounded_of_selected (hmd5 : ∀ seed, cfg.md5 seed ≠ [] ∧ PyStr.Encodable (cfg.md5 seed))
    (hecho : grader.Echoes) (hqueue : cfg.hasQueue grader.queueName = true) (hreadable : Readable s)
    (hget : getSingleUnretiredSubmission cfg env.pull.plan env.pull.queryTime grader.queueName t = some s) :
    Rounded cfg env grader t (grader.round cfg env t) := by
  have hs : s ∈ t := mem_of_getSingleSubmission hget
  have hended := getSubmission_of_selected hqueue hget
  rcases hreply : pullReply env.pull.fetch (grader.pulledRow cfg env s) with e | ⟨success, content⟩ | _
  · -- an exception of the reply undoes the save if every request is one transaction
    by_cases hatomic : cfg.atomicRequests = true
    · have hround : grader.round cfg env t = ⟨t, [], .error e⟩ := by
        simp [ActiveGrader.round, hended, servePull, hreply, hatomic, popSubmission]
      rw [hround]
      exact Rounded.idle _
    · have hround : grader.round cfg env t = ⟨save env.pull.pullTime (grader.pulledRow cfg env s) t,
          [.pulled (grader.pulledRow cfg env s) (.error e)], .error e⟩ := by
        simp [ActiveGrader.round, hended, servePull, hreply, hatomic, popSubmission]
      rw [hround]
      exact Rounded.leased _ _ hs
  · cases success with
    | true =>
        -- the row is handed out, and the response of the grader goes to the LMS
        rcases pullReply_eq_success_iff.1 hreply with ⟨files, hserved, -⟩
        have hround := round_of_served hmd5 hecho hqueue hreadable hget hserved
        cases hout : (grader.delivery cfg env s).outcome with
        | error e =>
            rw [hround.1 e hout]
            exact Rounded.raised hget hout
        | ok acked =>
            rw [hround.2 acked hout]
            exact Rounded.graded hget hout
    | false =>
        -- the files cannot be fetched: the row is leased all the same, and the grader waits
        rcases pullReply_eq_failure_iff.1 hreply with ⟨-, -, heq⟩
        have hqueueName : (grader.pulledRow cfg env s).queueName = grader.queueName :=
          (isAvailable_iff.1 (isAvailable_of_getSingleSubmission hget)).2.1
        have hpop : popSubmission (.ok (.reply false content)) = .ok none := by
          rw [← heq, fetchError, hqueueName]
          exact popSubmission_failure (encodable_fetchText grader)
        have hround : grader.round cfg env t = ⟨save env.pull.pullTime (grader.pulledRow cfg env s) t,
            [.pulled (grader.pulledRow cfg env s) (.ok (.reply false content))], .ok ()⟩ := by
          simp only [ActiveGrader.round, hended, servePull, hreply, hpop]
        rw [hround]
        exact Rounded.leased _ _ hs
  · -- a pull that has selected a row never redirects
    have hreplied := replied_pullReply env.pull.fetch (grader.pulledRow cfg env s)
    rw [hreply] at hreplied
    cases hreplied

theorem round_of_none (hqueue : cfg.hasQueue grader.queueName = true)
    (hnone : getSingleUnretiredSubmission cfg env.pull.plan env.pull.queryTime grader.queueName t = none) :
    grader.round cfg env t = ⟨t, [], .ok ()⟩ := by
  have hpulled : getSubmission cfg env.pull (pullRequest grader.queueName) t =
      ⟨t, [], .ok (.failure (py "Queue '" ++ grader.queueName ++ py "' is empty"))⟩ := by
    simp only [getSubmission, getSubmissionChecks_pullRequest hqueue, hnone]
  simp only [ActiveGrader.round, hpulled, popSubmission_failure (encodable_emptyText grader)]

theorem rounded_round (env : PollEnv) (hmd5 : ∀ seed, cfg.md5 seed ≠ [] ∧ PyStr.Encodable (cfg.md5 seed))
    (hecho : grader.Echoes) (hqueue : cfg.hasQueue grader.queueName = true)
    (hreadable : ∀ r ∈ t, Readable r) : Rounded cfg env grader t (grader.round cfg env t) := by
  cases hget : getSingleUnretiredSubmission cfg env.pull.plan env.pull.queryTime grader.queueName t with
  | none =>
      rw [round_of_none hqueue hget]
      exact Rounded.idle _
  | some s =>
      exact rounded_of_selected hmd5 hecho hqueue (hreadable s (mem_of_getSingleSubmission hget)) hget

/-! ## The run of a grader -/

/-- A round is one event of the system, or two. -/
theorem run_of_round (cfg : Config) (env : PollEnv) (grader : ActiveGrader) (t : Table) :
    ∃ es, Run (atomicSystem cfg) Free t es (grader.round cfg env t).outputs
      (grader.round cfg env t).table := by
  let pull := Event.getSubmission env.pull (pullRequest grader.queueName)
  have hpull : Run (atomicSystem cfg) Free t [pull] (pull.run cfg t).2 (pull.run cfg t).1 :=
    Run.single trivial rfl
  unfold ActiveGrader.round
  dsimp only
  split
  · exact ⟨_, hpull⟩
  · exact ⟨_, hpull⟩
  · rename_i submission _
    let put := Event.putResult env.put (pushRequest (grader.responseForSubmission submission))
    exact ⟨_, hpull.append (Run.single (a := put) trivial rfl)⟩

/-- What a grader does is a run of the system. -/
theorem run_of_poll (cfg : Config) (grader : ActiveGrader) (envs : List PollEnv) (t : Table) :
    ∃ es, Run (atomicSystem cfg) Free t es (grader.poll cfg envs t).outputs
      (grader.poll cfg envs t).table := by
  induction envs generalizing t with
  | nil => exact ⟨[], Run.nil t⟩
  | cons env envs ih =>
      rcases run_of_round cfg env grader t with ⟨es, hround⟩
      rw [ActiveGrader.poll]
      dsimp only
      split
      · exact ⟨es, hround⟩
      · rcases ih (grader.round cfg env t).table with ⟨es', hrest⟩
        exact ⟨es ++ es', hround.append hrest⟩

theorem reachable_round (ht : (atomicSystem cfg).Reachable KeyedTable.empty t) :
    (atomicSystem cfg).Reachable KeyedTable.empty (grader.round cfg env t).table := by
  rcases ht with ⟨es, os, hrun⟩
  rcases run_of_round cfg env grader t with ⟨es', hround⟩
  exact (hrun.append hround).reachable

/-! ## How often a submission is graded -/

/-- The failures that the row has left, as long as it waits in the queue. -/
def failuresLeft (cfg : Config) (queueName : PyStr) (s : Submission) : Nat :=
  if isWaiting queueName s then cfg.maxNumberOfFailures + 1 - s.numFailures else 0

/-- A result retires the row, or takes one of the failures that it has left. -/
theorem failuresLeft_graded {acked : Bool} (hwaiting : isWaiting grader.queueName s = true)
    (hlimit : s.numFailures ≤ cfg.maxNumberOfFailures) :
    failuresLeft cfg grader.queueName (grader.graded cfg env s acked) + 1 ≤
      failuresLeft cfg grader.queueName s := by
  have hleft : failuresLeft cfg grader.queueName s = cfg.maxNumberOfFailures + 1 - s.numFailures := by
    rw [failuresLeft, if_pos hwaiting]
  have hgraded : failuresLeft cfg grader.queueName (grader.graded cfg env s acked) ≤
      cfg.maxNumberOfFailures - s.numFailures := by
    cases acked with
    | true =>
        have hretired : isWaiting grader.queueName (grader.graded cfg env s true) = false := by
          simp [isWaiting, ActiveGrader.graded, Submission.returned]
        rw [failuresLeft, hretired]
        exact Nat.zero_le _
    | false =>
        have hcount : (grader.graded cfg env s false).numFailures = s.numFailures + 1 := rfl
        rw [failuresLeft, hcount]
        split
        · omega
        · exact Nat.zero_le _
  omega

theorem countP_exchange {id : Nat} :
    (grader.exchange cfg env s).countP (isAcceptedFor id) = if s.id = id then 1 else 0 := by
  by_cases hid : s.id = id <;>
    simp [ActiveGrader.exchange, isAcceptedFor, ActiveGrader.pulledRow, Submission.pulled, hid]

/-- What is left of the failures of a row after a save of a round. -/
theorem exists_saved {d : Submission} (now : DateTime) (hs : s ∈ t) (hd : d.id = s.id) (hr : r ∈ t) :
    ∃ q ∈ save now d t, q.id = r.id ∧ (r = s ∧ q = d ∨ r.id ≠ s.id ∧ q = r) := by
  by_cases hid : r.id = s.id
  · exact ⟨d, (mem_save_of_mem hs hd).2 (Or.inl rfl), hd.trans hid.symm,
      Or.inl ⟨KeyedTable.eq_of_key_eq hr hs hid, rfl⟩⟩
  · exact ⟨r, (mem_save_of_mem hs hd).2 (Or.inr ⟨hr, hid⟩), rfl, Or.inr ⟨hid, rfl⟩⟩

/-- The results that a round returns for a row come out of the failures that it has left. -/
theorem Rounded.spends {ended : Ended Unit} (h : Rounded cfg env grader t ended)
    (hlimit : ∀ r ∈ t, r.retired = false → r.numFailures ≤ cfg.maxNumberOfFailures) (hr : r ∈ t) :
    ended.outputs.countP (isAcceptedFor r.id) ≤ failuresLeft cfg grader.queueName r ∧
      (ended.result = .ok () → ∃ q ∈ ended.table, q.id = r.id ∧
        ended.outputs.countP (isAcceptedFor r.id) + failuresLeft cfg grader.queueName q ≤
          failuresLeft cfg grader.queueName r) := by
  have hspent : ∀ {s : Submission} {queryTime : DateTime} {plan : QueryPlan},
      getSingleUnretiredSubmission cfg plan queryTime grader.queueName t = some s →
      s.numFailures ≤ cfg.maxNumberOfFailures → ∀ env acked,
        failuresLeft cfg grader.queueName (grader.graded cfg env s acked) + 1 ≤
          failuresLeft cfg grader.queueName s :=
    fun hget hle env acked =>
      failuresLeft_graded (isWaiting_of_isAvailable (isAvailable_of_getSingleSubmission hget)) hle
  cases h with
  | idle result => exact ⟨Nat.zero_le _, fun _ => ⟨r, hr, rfl, by simp⟩⟩
  | @leased s reply result hs =>
      refine ⟨by simp [isAcceptedFor], fun _ => ?_⟩
      rcases exists_saved (d := grader.pulledRow cfg env s) env.pull.pullTime hs rfl hr with
        ⟨q, hq, hid, ⟨rfl, rfl⟩ | ⟨-, rfl⟩⟩
      · exact ⟨_, hq, hid, by simp [isAcceptedFor, failuresLeft, isWaiting, ActiveGrader.pulledRow,
          Submission.pulled]⟩
      · exact ⟨_, hq, hid, by simp [isAcceptedFor]⟩
  | @raised s e hget _ =>
      -- the result counts, although its exception ends the loop of the grader
      have hs := mem_of_getSingleSubmission hget
      refine ⟨?_, by simp⟩
      rw [countP_exchange]
      by_cases hid : s.id = r.id
      · rw [if_pos hid, ← KeyedTable.eq_of_key_eq hs hr hid]
        exact le_trans (Nat.le_add_left 1 _)
          (hspent hget (hlimit s hs (retired_of_getSingleSubmission hget)) env false)
      · rw [if_neg hid]
        exact Nat.zero_le _
  | @graded s acked hget _ =>
      have hs := mem_of_getSingleSubmission hget
      have hspends := hspent hget (hlimit s hs (retired_of_getSingleSubmission hget)) env acked
      rw [countP_exchange]
      rcases exists_saved (d := grader.graded cfg env s acked) env.put.now hs rfl hr with
        ⟨q, hq, hid, ⟨rfl, rfl⟩ | ⟨hne, rfl⟩⟩
      · rw [if_pos rfl]
        exact ⟨le_trans (Nat.le_add_left 1 _) hspends, fun _ => ⟨_, hq, hid, by rwa [Nat.add_comm]⟩⟩
      · rw [if_neg (Ne.symm hne)]
        exact ⟨Nat.zero_le _, fun _ => ⟨_, hq, hid, by rw [Nat.zero_add]⟩⟩

/-- However long a grader polls, and whatever the clock, the fetches and the LMS do: it returns no
more results for a submission than the failures that the row has left, and none once the row is
retired. -/
theorem accepted_le_failuresLeft (hmd5 : ∀ seed, cfg.md5 seed ≠ [] ∧ PyStr.Encodable (cfg.md5 seed))
    (hecho : grader.Echoes) (hqueue : cfg.hasQueue grader.queueName = true) (envs : List PollEnv)
    (ht : (atomicSystem cfg).Reachable KeyedTable.empty t) :
    ∀ r ∈ t, (grader.poll cfg envs t).outputs.countP (isAcceptedFor r.id) ≤
      failuresLeft cfg grader.queueName r := by
  induction envs generalizing t with
  | nil => exact fun r _ => Nat.zero_le _
  | cons env envs ih =>
      intro r hr
      have hlimit : ∀ r ∈ t, r.retired = false → r.numFailures ≤ cfg.maxNumberOfFailures :=
        fun r hr hopen => (open_of_reachable (reachableTable_of_atomic ht) hr hopen).2
      have hround := (rounded_round env hmd5 hecho hqueue (readable_of_reachable ht)).spends hlimit hr
      rw [ActiveGrader.poll]
      cases hres : (grader.round cfg env t).result with
      | error e => simpa only [hres] using hround.1
      | ok _ =>
          rcases hround.2 hres with ⟨q, hq, hid, hle⟩
          have hrest := ih (reachable_round ht) q hq
          rw [hid] at hrest
          simp only [List.countP_append]
          calc
            (grader.round cfg env t).outputs.countP (isAcceptedFor r.id) +
                (grader.poll cfg envs (grader.round cfg env t).table).outputs.countP (isAcceptedFor r.id)
              ≤ (grader.round cfg env t).outputs.countP (isAcceptedFor r.id) +
                  failuresLeft cfg grader.queueName q := Nat.add_le_add_left hrest _
            _ ≤ failuresLeft cfg grader.queueName r := hle

/-- A round at a minute, with what the LMS answers. -/
def pollAt (minute : Fin 60) (lms : Nat → HttpResult) : PollEnv :=
  ⟨⟨.insertion, clockAt minute, clockAt minute, .timeout⟩, ⟨clockAt minute, clockAt minute, .timeout, lms⟩⟩

/-- Five rounds two minutes apart, with an LMS that is down. -/
def pollsToDownLms : List PollEnv :=
  [pollAt 2 (fun _ => .timeout), pollAt 4 (fun _ => .timeout), pollAt 6 (fun _ => .timeout),
    pollAt 8 (fun _ => .timeout), pollAt 10 (fun _ => .timeout)]

/-- The bound is met: the submission is graded four times, and then retired. -/
theorem accepted_le_downLms :
    let ended := testGrader.poll devSettings pollsToDownLms pendingTable
    (∀ r ∈ pendingTable, ended.outputs.countP (isAcceptedFor r.id) ≤
        failuresLeft devSettings (py "test-pull") r) ∧
      pendingTable.rows.map (failuresLeft devSettings (py "test-pull")) = [4] ∧
      ended.outputs.countP (isAcceptedFor 1) = 4 ∧
      ended.table.rows.map Submission.retired = [true] :=
  ⟨accepted_le_failuresLeft (fun seed => ⟨digest_ne_nil seed, encodable_digest seed⟩) (fun _ => rfl)
    (by decide) pollsToDownLms (reachable_tableAfter _ _ _), by decide +kernel⟩

/-! ## A queue that is drained -/

/-- The clock readings of the rounds: no lease of the queue that was active at first expires, and none
that a round has taken. -/
structure PollWindow (cfg : Config) (queueName : PyStr) (now : DateTime) (t : Table)
    (envs : List PollEnv) : Prop where
  clock : ∀ env ∈ envs, env.pull.queryTime ≤ env.pull.pullTime
  meanwhile : ∀ env ∈ envs, Meanwhile cfg queueName now t env.pull.queryTime
  within : envs.Pairwise (fun c d => DuringLease cfg c.pull.pullTime d.pull.queryTime)

/-- The row can be handed out in every round: its file map can be read, and any fetch for it succeeds
with a file dictionary. -/
def Gradable (envs : List PollEnv) (s : Submission) : Prop :=
  s.ReadableFiles ∧ ∀ env ∈ envs, s.Fetches env.pull.fetch ∧ s.BringsFiles env.pull.fetch

namespace ActiveGrader

/-- The row as a round leaves it whose delivery has come to an outcome. -/
def served (cfg : Config) (env : PollEnv) (grader : ActiveGrader) (s : Submission) : Submission :=
  grader.graded cfg env s (grader.delivery cfg env s).acked

def afterRound (cfg : Config) (env : PollEnv) (grader : ActiveGrader) (s : Submission) (t : Table) : Table :=
  save env.put.now (grader.served cfg env s) t

end ActiveGrader

theorem mem_afterRound (hs : s ∈ t) :
    r ∈ grader.afterRound cfg env s t ↔ r = grader.served cfg env s ∨ (r ∈ t ∧ r.id ≠ s.id) :=
  mem_save_of_mem hs rfl

/-- What rounds on the table `t` leave, if they have served the rows `served`, each with the answers
that its round got, and not the rows `rest`. -/
structure Polled (cfg : Config) (grader : ActiveGrader) (now : DateTime) (t : Table)
    (served : List (Submission × PollEnv)) (rest : List Submission) (ended : Ended Unit) : Prop where
  result : ended.result = .ok ()
  drains : Drains Submission.arrivalTime (available cfg now grader.queueName t) (served.map Prod.fst) rest
  left : ∀ time, Meanwhile cfg grader.queueName now t time →
    (∀ p ∈ served, DuringLease cfg p.2.pull.pullTime time) →
      (available cfg time grader.queueName ended.table).Perm rest
  outputs : ended.outputs = served.flatMap (fun p => grader.exchange cfg p.2 p.1)
  handedOut : ∀ p ∈ served, ∃ files, FilesServed p.2.pull.fetch (grader.pulledRow cfg p.2 p.1) files
  reported : ∀ p ∈ served, (grader.delivery cfg p.2 p.1).Reported
  saved : ∀ p ∈ served, grader.served cfg p.2 p.1 ∈ ended.table
  kept : ∀ r ∈ t, r ∉ served.map Prod.fst → r ∈ ended.table

/-- The round takes the row of the queue that has arrived first. -/
theorem round_of_available (hmd5 : ∀ seed, cfg.md5 seed ≠ [] ∧ PyStr.Encodable (cfg.md5 seed))
    (hecho : grader.Echoes) (hqueue : cfg.hasQueue grader.queueName = true)
    (hcaught : AttemptsCaught env.put.lms 5)
    (hne : available cfg env.pull.queryTime grader.queueName t ≠ [])
    (hrows : ∀ r ∈ available cfg env.pull.queryTime grader.queueName t,
      Gradable [env] r ∧ Readable r ∧ NamesCallback r) :
    ∃ s ∈ available cfg env.pull.queryTime grader.queueName t,
      (∀ r ∈ available cfg env.pull.queryTime grader.queueName t, s.arrivalTime ≤ r.arrivalTime) ∧
      (∃ files, FilesServed env.pull.fetch (grader.pulledRow cfg env s) files) ∧
      (grader.delivery cfg env s).Reported ∧
      grader.round cfg env t =
        ⟨grader.afterRound cfg env s t,
          grader.exchange cfg env s, .ok ()⟩ := by
  cases hget : getSingleUnretiredSubmission cfg env.pull.plan env.pull.queryTime grader.queueName t with
  | none => exact absurd (firstByArrivalTime_eq_none.1 hget) hne
  | some s =>
      have hs := mem_of_getSingleSubmission hget
      have hav := mem_available.2 ⟨hs, isAvailable_of_getSingleSubmission hget⟩
      rcases hrows s hav with ⟨⟨hfiles, hfetches⟩, hreadable, hnamed⟩
      -- the pulled row has the same file map and header
      have hfiles' : (grader.pulledRow cfg env s).ReadableFiles := hfiles
      have hfetches' : (grader.pulledRow cfg env s).Fetches env.pull.fetch := (hfetches env (by simp)).1
      have hbrings' : (grader.pulledRow cfg env s).BringsFiles env.pull.fetch := (hfetches env (by simp)).2
      rcases exists_filesServed hfiles' hfetches' hbrings' with ⟨files, hserved⟩
      have hdelivery : (grader.delivery cfg env s).outcome = .ok (grader.delivery cfg env s).acked ∧
          (grader.delivery cfg env s).Reported := reported_deliver hnamed hcaught
      exact ⟨s, hav, fun r hr => firstByArrivalTime_le hget hr, ⟨files, hserved⟩, hdelivery.2,
        (round_of_served hmd5 hecho hqueue hreadable hget hserved).2 _ hdelivery.1⟩

section Step

variable {queueName : PyStr}

/-- A row that is leased is not available at the time of the query, which has come before. -/
theorem not_available_of_query (hdelay : 0 < cfg.submissionProcessingDelay)
    (hclock : env.pull.queryTime ≤ env.pull.pullTime) :
    isAvailable cfg env.pull.queryTime .pullTime queueName (grader.served cfg env s) = false := by
  have hmicros := DateTime.le_iff.1 hclock
  have htime : (grader.served cfg env s).pullTime = some env.pull.pullTime := rfl
  have hfilter : timeFilter cfg env.pull.queryTime .pullTime (grader.served cfg env s) = false := by
    simp only [timeFilter, Submission.time, htime, decide_eq_false_iff_not]
    omega
  simp only [isAvailable, hfilter, Bool.false_and]

/-- The leases of the queue after a round: its own, and those that were there before. -/
theorem Meanwhile.afterRound (h : Meanwhile cfg queueName now t time)
    (hquery : Meanwhile cfg queueName now t env.pull.queryTime)
    (hclock : env.pull.queryTime ≤ env.pull.pullTime) (hlease : DuringLease cfg env.pull.pullTime time)
    (hs : s ∈ t) :
    Meanwhile cfg queueName env.pull.queryTime (grader.afterRound cfg env s t) time := by
  refine h.later hquery.le (le_trans hclock hlease.1) ?_
  intro r hr _
  rcases (mem_afterRound hs).1 hr with rfl | ⟨hr, -⟩
  · exact Or.inr (timeFilter_of_duringLease hlease rfl)
  · exact Or.inl hr

/-- The rows that are left by a round on the row `s`. -/
theorem available_perm_afterRound (grader : ActiveGrader) (hdelay : 0 < cfg.submissionProcessingDelay)
    (hquery : Meanwhile cfg queueName now t env.pull.queryTime)
    (hclock : env.pull.queryTime ≤ env.pull.pullTime) (hs : s ∈ available cfg now queueName t) :
    (available cfg now queueName t).Perm
      (s :: available cfg env.pull.queryTime queueName (grader.afterRound cfg env s t)) :=
  filter_save_perm (mem_available.1 hs).1 rfl (mem_available.1 hs).2 (not_available_of_query hdelay hclock)
    fun _ hr _ => hquery.isAvailable_eq hr

end Step

theorem PollWindow.tail (h : PollWindow cfg grader.queueName now t (env :: envs)) (hs : s ∈ t) :
    PollWindow cfg grader.queueName env.pull.queryTime (grader.afterRound cfg env s t) envs := by
  rcases List.pairwise_cons.1 h.within with ⟨hfirst, hrest⟩
  refine ⟨fun e he => h.clock e (List.mem_cons_of_mem _ he), ?_, hrest⟩
  intro e he
  exact (h.meanwhile e (List.mem_cons_of_mem _ he)).afterRound (h.meanwhile env List.mem_cons_self)
    (h.clock env List.mem_cons_self) (hfirst e he) hs

theorem poll_cons {os : List Output} (h : grader.round cfg env t = ⟨u, os, .ok ()⟩) :
    grader.poll cfg (env :: envs) t = ⟨(grader.poll cfg envs u).table,
      os ++ (grader.poll cfg envs u).outputs, (grader.poll cfg envs u).result⟩ := by
  rw [ActiveGrader.poll, h]

/-- A round, and the rounds from the table that it leaves. -/
theorem Polled.cons {served : List (Submission × PollEnv)} {rest : List Submission} {ended : Ended Unit}
    {files : PyStr} (hdelay : 0 < cfg.submissionProcessingDelay)
    (hwindow : PollWindow cfg grader.queueName now t (env :: envs))
    (hs : s ∈ available cfg now grader.queueName t)
    (hle : ∀ r ∈ available cfg now grader.queueName t, s.arrivalTime ≤ r.arrivalTime)
    (hserved : FilesServed env.pull.fetch (grader.pulledRow cfg env s) files)
    (hreported : (grader.delivery cfg env s).Reported)
    (h : Polled cfg grader env.pull.queryTime (grader.afterRound cfg env s t) served rest ended) :
    Polled cfg grader now t ((s, env) :: served) rest
      ⟨ended.table, grader.exchange cfg env s ++ ended.outputs, ended.result⟩ := by
  have hmem := (mem_available.1 hs).1
  have hquery := hwindow.meanwhile env List.mem_cons_self
  have hclock := hwindow.clock env List.mem_cons_self
  refine ⟨h.result, ?_, ?_, ?_, ?_, ?_, ?_, ?_⟩
  · exact Drains.cons hle (available_perm_afterRound grader hdelay hquery hclock hs) h.drains
  · intro time hmeanwhile hlease
    rcases List.forall_mem_cons.1 hlease with ⟨hfirst, hrest⟩
    exact h.left time (hmeanwhile.afterRound hquery hclock hfirst hmem) hrest
  · rw [h.outputs, List.flatMap_cons]
  · exact List.forall_mem_cons.2 ⟨⟨files, hserved⟩, h.handedOut⟩
  · exact List.forall_mem_cons.2 ⟨hreported, h.reported⟩
  · refine List.forall_mem_cons.2 ⟨?_, h.saved⟩
    refine h.kept _ ((mem_afterRound hmem).2 (Or.inl rfl)) ?_
    -- the row that has been served is not taken again
    intro htaken
    have hav := (mem_available.1 (h.drains.mem_of_mem_taken htaken)).2
    rw [not_available_of_query hdelay hclock] at hav
    cases hav
  · intro r hr hnot
    rw [List.map_cons, List.mem_cons, not_or] at hnot
    have hid : r.id ≠ s.id := fun heq => hnot.1 (KeyedTable.eq_of_key_eq hr hmem heq)
    exact h.kept r ((mem_afterRound hmem).2 (Or.inr ⟨hr, hid⟩)) hnot.2

/-- Every round, of no more than there are rows available, serves one of them. -/
theorem polled_poll (hmd5 : ∀ seed, cfg.md5 seed ≠ [] ∧ PyStr.Encodable (cfg.md5 seed))
    (hecho : grader.Echoes) (hqueue : cfg.hasQueue grader.queueName = true)
    (hdelay : 0 < cfg.submissionProcessingDelay) (hcaught : ∀ env ∈ envs, AttemptsCaught env.put.lms 5) :
    ∀ {now : DateTime} {t : Table}, PollWindow cfg grader.queueName now t envs →
      (∀ r ∈ available cfg now grader.queueName t, Gradable envs r ∧ Readable r ∧ NamesCallback r) →
      envs.length ≤ (available cfg now grader.queueName t).length →
        ∃ served rest, served.map Prod.snd = envs ∧
          Polled cfg grader now t served rest (grader.poll cfg envs t) := by
  induction envs with
  | nil =>
      intro now t _ _ _
      refine ⟨[], _, rfl, rfl, Drains.nil _, ?_, rfl, by simp, by simp, by simp, fun r hr _ => hr⟩
      exact fun time hmeanwhile _ => (hmeanwhile.available_perm (SameQueue.refl _ t)).symm
  | cons env envs ih =>
      intro now t hwindow hrows hlen
      have hquery := hwindow.meanwhile env List.mem_cons_self
      have hclock := hwindow.clock env List.mem_cons_self
      -- the query of the round finds the same rows
      have hsame := hquery.available_perm (SameQueue.refl _ t)
      have hne : available cfg env.pull.queryTime grader.queueName t ≠ [] := by
        intro hnil
        rw [hsame.length_eq, hnil] at hlen
        exact absurd hlen (by simp)
      have hgradable : ∀ r ∈ available cfg env.pull.queryTime grader.queueName t,
          Gradable [env] r ∧ Readable r ∧ NamesCallback r := by
        intro r hr
        rcases hrows r (hsame.mem_iff.2 hr) with ⟨hgradable, hrest⟩
        refine ⟨⟨hgradable.1, ?_⟩, hrest⟩
        exact List.forall_mem_singleton.2 (hgradable.2 env List.mem_cons_self)
      rcases round_of_available hmd5 hecho hqueue (hcaught env List.mem_cons_self) hne hgradable with
        ⟨s, hs, hle, ⟨files, hserved⟩, hreported, hround⟩
      have hs' := hsame.mem_iff.2 hs
      have hperm := available_perm_afterRound grader hdelay hquery hclock hs'
      have hrows' : ∀ r ∈ available cfg env.pull.queryTime grader.queueName
          (grader.afterRound cfg env s t), Gradable envs r ∧ Readable r ∧ NamesCallback r := by
        intro r hr
        rcases hrows r (hperm.mem_iff.2 (List.mem_cons_of_mem s hr)) with ⟨hgradable, hrest⟩
        exact ⟨⟨hgradable.1, fun e he => hgradable.2 e (List.mem_cons_of_mem _ he)⟩, hrest⟩
      have hlen' : envs.length ≤ (available cfg env.pull.queryTime grader.queueName
          (grader.afterRound cfg env s t)).length := by
        rw [hperm.length_eq] at hlen
        exact Nat.le_of_succ_le_succ hlen
      rcases ih (fun e he => hcaught e (List.mem_cons_of_mem _ he)) (hwindow.tail (mem_available.1 hs').1)
        hrows' hlen' with ⟨served, rest, hmap, hpolled⟩
      refine ⟨(s, env) :: served, rest, by simp [hmap], ?_⟩
      rw [poll_cons hround]
      exact Polled.cons hdelay hwindow hs' (fun r hr => hle r (hsame.mem_iff.1 hr)) hserved hreported hpolled

theorem countP_exchanges (served : List (Submission × PollEnv)) (id : Nat) :
    (served.flatMap (fun p => grader.exchange cfg p.2 p.1)).countP (isAcceptedFor id) =
      ((served.map Prod.fst).map Submission.id).count id := by
  induction served with
  | nil => rfl
  | cons p served ih =>
      rw [List.flatMap_cons, List.countP_append, ih, List.map_cons, List.map_cons, List.count_cons,
        Nat.add_comm, countP_exchange]
      simp

/-- As many rounds as there are rows available, within one lease, serve each row once, in the order of
their arrival.  Every response is delivered, the LMS reads it, and the grader finds nothing more. -/
theorem poll_drains_queue (hmd5 : ∀ seed, cfg.md5 seed ≠ [] ∧ PyStr.Encodable (cfg.md5 seed))
    (hecho : grader.Echoes) (hqueue : cfg.hasQueue grader.queueName = true)
    (hdelay : 0 < cfg.submissionProcessingDelay) (ht : (atomicSystem cfg).Reachable KeyedTable.empty t)
    (hwindow : PollWindow cfg grader.queueName now t envs)
    (hgradable : ∀ r ∈ available cfg now grader.queueName t, Gradable envs r)
    (hcaught : ∀ env ∈ envs, AttemptsCaught env.put.lms 5)
    (hlen : envs.length = (available cfg now grader.queueName t).length) :
    ∃ served, served.map Prod.snd = envs ∧ Polled cfg grader now t served [] (grader.poll cfg envs t) ∧
      (available cfg now grader.queueName t).Perm (served.map Prod.fst) ∧
      (served.map Prod.fst).Pairwise (fun r s => r.arrivalTime ≤ s.arrivalTime) ∧
      (∀ r ∈ available cfg now grader.queueName t,
        (grader.poll cfg envs t).outputs.countP (isAcceptedFor r.id) = 1) ∧
      (∀ p ∈ served, Json.Plain (grader.response cfg p.2 p.1).xqueueBody →
        ∃ header, jsonLoads p.1.xqueueHeader = .ok header ∧
          (grader.delivery cfg p.2 p.1).Tells ⟨header, (grader.response cfg p.2 p.1).xqueueBody⟩) ∧
      ∀ env, Meanwhile cfg grader.queueName now t env.pull.queryTime →
        (∀ e ∈ envs, DuringLease cfg e.pull.pullTime env.pull.queryTime) →
          grader.round cfg env (grader.poll cfg envs t).table =
            ⟨(grader.poll cfg envs t).table, [], .ok ()⟩ := by
  have hnamed : ∀ r ∈ t, NamesCallback r :=
    fun r hr => namesCallback_of_reachable (reachableTable_of_atomic ht) hr
  have hrows : ∀ r ∈ available cfg now grader.queueName t,
      Gradable envs r ∧ Readable r ∧ NamesCallback r := by
    intro r hr
    have hmem := (mem_available.1 hr).1
    exact ⟨hgradable r hr, readable_of_reachable ht r hmem, hnamed r hmem⟩
  rcases polled_poll hmd5 hecho hqueue hdelay hcaught hwindow hrows (Nat.le_of_eq hlen) with
    ⟨served, rest, hmap, hpolled⟩
  have hcount : (served.map Prod.fst).length = (available cfg now grader.queueName t).length := by
    rw [List.length_map, ← hlen, ← hmap, List.length_map]
  -- as many rows have been served as there were
  have hrest := hpolled.drains.rest_eq_nil hcount
  subst hrest
  have hperm : (available cfg now grader.queueName t).Perm (served.map Prod.fst) := by
    simpa using hpolled.drains.perm
  refine ⟨served, hmap, hpolled, hperm, hpolled.drains.pairwise_le, ?_, ?_, ?_⟩
  · -- every exchange of the loop is one of a row that has been served
    intro r hr
    have hids : ((available cfg now grader.queueName t).map Submission.id).Nodup :=
      t.nodup.sublist (List.filter_sublist.map _)
    rw [hpolled.outputs, countP_exchanges]
    exact List.count_eq_one_of_mem ((hperm.map Submission.id).nodup_iff.1 hids)
      ((hperm.map Submission.id).mem_iff.1 (List.mem_map_of_mem hr))
  · intro p hp hplain
    have hmem : p.1 ∈ t := (mem_available.1 (hperm.mem_iff.2 (List.mem_map_of_mem hp))).1
    rcases hnamed p.1 hmem with ⟨url, hurl⟩
    rcases lmsCallbackUrl_eq_ok.1 hurl with ⟨members, hloads, -⟩
    have hheader : jsonLoads p.1.xqueueHeader = .ok (.obj members) := by simp [jsonLoads, hloads]
    exact ⟨_, hheader, tells_deliver hheader hplain⟩
  · intro env hmeanwhile hlease
    have hempty := hpolled.left env.pull.queryTime hmeanwhile (by
      intro p hp
      exact hlease p.2 (hmap ▸ List.mem_map_of_mem hp))
    exact round_of_none hqueue (firstByArrivalTime_eq_none.2 (List.perm_nil.1 hempty))

/-- The LMS acknowledges the first result and is down for the second one. -/
def twoPolls : List PollEnv :=
  [pollAt 2 (fun _ => .response 200 []), pollAt 2 (fun _ => .timeout)]

theorem caught_twoPolls : ∀ env ∈ twoPolls, AttemptsCaught env.put.lms 5 := by
  intro env henv
  rcases List.mem_pair.1 henv with rfl | rfl
  · exact fun _ _ _ => rfl
  · exact fun _ _ _ => rfl

theorem pollWindow_twoPolls : PollWindow pushSettings (py "test-pull") (clockAt 2) twoJobs twoPolls := by
  have hquery : ∀ env ∈ twoPolls, env.pull.queryTime = clockAt 2 ∧ env.pull.pullTime = clockAt 2 := by
    intro env henv
    rcases List.mem_pair.1 henv with rfl | rfl <;> exact ⟨rfl, rfl⟩
  have hwithin : DuringLease pushSettings (clockAt 2) (clockAt 2) := ⟨le_refl _, by decide⟩
  refine ⟨?_, ?_, List.pairwise_of_forall_mem_list ?_⟩
  · intro env henv
    rw [(hquery env henv).1, (hquery env henv).2]
  · intro env henv
    rw [(hquery env henv).1]
    exact ⟨le_refl _, fun _ _ _ h => h⟩
  · intro c hc d hd
    rw [(hquery c hc).2, (hquery d hd).1]
    exact hwithin

/-- Two rows, and two rounds. -/
theorem poll_drains_twoJobs :
    ∃ served, served.map Prod.snd = twoPolls ∧
      Polled pushSettings testGrader (clockAt 2) twoJobs served []
        (testGrader.poll pushSettings twoPolls twoJobs) ∧
      (testGrader.poll pushSettings twoPolls twoJobs).table.rows.map
        (fun r => (r.retired, r.numFailures, r.lmsAck)) = [(true, 0, true), (false, 1, false)] := by
  have hrows : ∀ r ∈ twoJobs.rows, ¬ urlMarker <:+: r.s3Urls ∧ r.s3Urls = Json.dumps (.obj []) := by
    decide +kernel
  have hgradable : ∀ r ∈ available pushSettings (clockAt 2) testGrader.queueName twoJobs,
      Gradable twoPolls r := by
    intro r hr
    rcases hrows r (mem_available.1 hr).1 with ⟨hmarker, hurls⟩
    have hplain : Json.Plain (.obj []) :=
      Json.Plain.obj_of_keys [] rfl (by decide) (by decide) (by simp)
    exact ⟨⟨_, decodedUrls_of_dumps hplain hurls, fun h => absurd h hmarker⟩,
      fun _ _ => ⟨fun _ hpoints => absurd hpoints.1 hmarker, fun _ _ hpoints _ => absurd hpoints.1 hmarker⟩⟩
  rcases @poll_drains_queue pushSettings testGrader twoPolls twoJobs (clockAt 2)
    (fun seed => ⟨digest_ne_nil seed, encodable_digest seed⟩) (fun _ => rfl) (by decide) (by decide)
    (reachable_tableAfter _ _ _) pollWindow_twoPolls hgradable caught_twoPolls (by decide +kernel) with
    ⟨served, hmap, hpolled, -⟩
  exact ⟨served, hmap, hpolled, by decide +kernel⟩

end Xqueue
