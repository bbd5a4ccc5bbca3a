import Mathlib.Logic.Function.Basic
import Xqueue.Library.Transition
import Xqueue.LifeCycle
import Xqueue.Commands.DeleteOldSubmissions

/-!
# Interleaved — operations cut into their reads and writes

Any number of processes run the operations side by side.  A process reads rows, works on the
instance it holds (HTTP calls included, no access to the table) and saves it; between these
steps every other process may run.

* `Proc` : where a process stands, with the instances it holds;
* `Act` : one step of a process, with what the outside answers to it;
* `interleavedSystem` : the table, the row locks and the processes;
* `Acted`, `acted_of_act` : all that one step can do to the table and to the process.

A `put_result` holds the lock of its row until it is done, and a write waits for the lock of
every row it changes; plain reads do not wait.
-/

namespace Xqueue

open Library
open Library.System

/-! ## Processes -/

/-- What is left of a loop: rows fetched but not reached, and queries not yet made. -/
structure Rest where
  rows : List Submission
  scopes : List (Option PyStr)

inductive Proc where
  | idle
  /-- The prior submissions are invalidated, the uploads and the insert are to come. -/
  | submitting (request : HttpRequest) (valid : ValidRequest) (callback : PyStr)
  /-- A row has been read. -/
  | working (task : Task) (s : Submission) (rest : Rest)
  /-- The instance has been changed, the save is to come. -/
  | saving (task : Task) (c : Submission) (rest : Rest)
  /-- `retire_failed_submissions` before its next query. -/
  | querying (force : Bool) (scopes : List (Option PyStr))
  /-- `delete_old_submissions` before its next query, with a batch to delete, and before it sleeps. -/
  | deleting (deleteDate : DateTime) (options : DeleteOptions)
  | removing (deleteDate : DateTime) (options : DeleteOptions) (ids : List Nat)
  | pausing (deleteDate : DateTime) (options : DeleteOptions)

/-- Go on with the next row, the next query, or nothing. -/
def Task.resume (task : Task) : Rest → Proc
  | ⟨s :: rows, scopes⟩ => .working task s ⟨rows, scopes⟩
  | ⟨[], scopes⟩ =>
      match task, scopes with
      | .retireFailed force, scope :: scopes => .querying force (scope :: scopes)
      | _, _ => .idle

/-- The row that a process has locked. -/
def Proc.locked : Proc → Option Nat
  | .working (.put _ _) s _ => some s.id
  | .saving (.put _ _) c _ => some c.id
  | _ => none

inductive Act where
  | submit (request : HttpRequest)
  | store (storage : Storage Nat) (env : SubmitEnv)
  | getSubmission (request : HttpRequest) (plan : QueryPlan) (queryTime : DateTime)
  | putResult (request : HttpRequest)
  | deliverSubmission (worker : Worker) (plan : QueryPlan) (queryTime : DateTime)
  | retireFailedSubmissions (force : Bool) (queueNames : List PyStr)
  | retireOldSubmissions (queueName : PyStr) (retireBefore : Option PyStr) (plan : QueryPlan)
  | deleteOldSubmissions (options : DeleteOptions) (now : DateTime)
  | query (plan : QueryPlan)
  | delete
  | work (env : WorkEnv)
  | save (fetch : HttpResult) (now : DateTime)

/-- One step of a process; `free` tells which rows no other process has locked.  `none` means
that the process cannot take the step, or has to wait for a lock. -/
def Proc.act (cfg : Config) (free : Nat → Bool) (t : Table) :
    Proc → Act → Option (Table × Proc × List Output)
  | .idle, .submit request =>
      match submitChecks cfg request with
      | .error _ => some (t, .idle, [])
      | .ok valid =>
          match storedCallback cfg valid.lmsCallbackUrl with
          | .error _ => some (t, .idle, [])
          | .ok callback =>
              -- the UPDATE waits for the rows that it changes
              if t.rows.all (fun r => !isPrior callback r || free r.id) then
                some (invalidatePriorSubmissions callback t, .submitting request valid callback,
                  [.invalidated callback])
              else none
  | .submitting request valid callback, .store storage env =>
      let ended := (storeSubmission cfg storage env request valid callback 0 t).2
      some (ended.table, .idle, ended.outputs)
  | .idle, .getSubmission request plan queryTime =>
      match getSubmissionChecks cfg request with
      | .error _ => some (t, .idle, [])
      | .ok queueName =>
          match getSingleUnretiredSubmission cfg plan queryTime queueName t with
          | none => some (t, .idle, [])
          | some s => some (t, .working (.pull request) s ⟨[], []⟩, [])
  | .idle, .putResult request =>
      match putResultChecks request t with
      | .error _ => some (t, .idle, [])
      | .ok (s, graderReply) =>
          -- `select_for_update`: the row is locked from here to the save
          if free s.id then some (t, .working (.put request graderReply) s ⟨[], []⟩, []) else none
  | .idle, .deliverSubmission worker plan queryTime =>
      match getSingleUnpushedSubmission cfg plan queryTime worker.queueName t with
      | none => some (t, .idle, [])
      | some s => some (t, .working (.push worker) s ⟨[], []⟩, [])
  | .idle, .retireFailedSubmissions force queueNames =>
      some (t, .querying force (scopesOf queueNames), [])
  | .querying force (scope :: scopes), .query plan =>
      some (t, (Task.retireFailed force).resume ⟨failedSubmissions cfg plan scope t, scopes⟩, [])
  | .idle, .retireOldSubmissions queueName retireBefore plan =>
      match retireBound cfg retireBefore with
      | .error _ => some (t, .idle, [])
      | .ok bound =>
          some (t, Task.retireOld.resume ⟨plan.order (t.rows.filter (isOldIn queueName bound)), []⟩, [])
  | .idle, .deleteOldSubmissions options now =>
      match deleteDate now options with
      | .error _ => some (t, .idle, [])
      | .ok date => some (t, .deleting date options, [])
  | .deleting date options, .query plan =>
      match batchIds plan date options.chunkSize.toNat t with
      | [] => some (t, .idle, [])
      | ids => some (t, .removing date options ids, [])
  | .removing date options ids, .delete =>
      if ids.all free then some (deleteBatch ids t, .pausing date options, []) else none
  | .pausing date options, .query _ =>
      -- `old_submissions.exists()`, and `time.sleep` may raise
      match if t.rows.any (isOld date) then timeSleep options.sleepBetween else .ok () with
      | .error _ => some (t, .idle, [])
      | .ok () => some (t, .deleting date options, [])
  | .working task s rest, .work env =>
      -- the HTTP calls, for which the table is not needed
      match task.work cfg env s with
      | (outputs, .error _) => some (t, .idle, outputs)
      | (outputs, .ok c) => some (t, .saving task c rest, outputs)
  | .saving task c rest, .save fetch now =>
      if free c.id then
        some ((task.finish cfg fetch now c t).1, task.resume rest, (task.finish cfg fetch now c t).2)
      else none
  | _, _ => none

/-! ## The system -/

structure State where
  table : Table
  lock : Nat → Option Nat
  proc : Nat → Proc

/-- All processes idle. -/
def State.start (t : Table) : State where
  table := t
  lock := fun _ => none
  proc := fun _ => .idle

/-- No process but `pid` has locked the row. -/
def State.free (st : State) (pid id : Nat) : Bool :=
  match st.lock id with
  | none => true
  | some owner => owner == pid

/-- The locks after `pid` has come to `p`: its own row, and what the others hold. -/
def State.relock (st : State) (pid : Nat) (p : Proc) (id : Nat) : Option Nat :=
  if p.locked = some id then some pid
  -- a process holds one lock at most, so it gives up any other
  else if st.lock id = some pid then none
  else st.lock id

def State.step (cfg : Config) (st : State) (a : Nat × Act) : Option (State × List Output) :=
  match (st.proc a.1).act cfg (st.free a.1) st.table a.2 with
  | none => none
  | some (t, p, outputs) =>
      some (⟨t, st.relock a.1 p, Function.update st.proc a.1 p⟩, outputs)

def interleavedSystem (cfg : Config) : System State (Nat × Act) Output where
  step := State.step cfg

/-! ## What one step can do -/

/-- What a row meets when an operation reads it to work on it. -/
def Task.MayRead (cfg : Config) (s : Submission) : Task → Prop
  | .pull _ => s.retired = false
  | .put request graderReply => AcceptedFor request s graderReply
  | .push _ => s.retired = false
  | .retireFailed _ => s.retired = false ∧ reachesLimit cfg s = true
  | .retireOld => s.retired = false

/-- The process holds no instance and has no insert to make. -/
def Proc.isEmpty : Proc → Bool
  | .idle => true
  | .submitting _ _ _ => false
  | .working _ _ _ => false
  | .saving _ _ _ => false
  | .querying _ _ => true
  | .deleting _ _ => true
  | .removing _ _ _ => true
  | .pausing _ _ => true

/-- Every effect a step can have: on the table, on the process, on the outputs. -/
inductive Acted (cfg : Config) (t : Table) : Proc → Table → Proc → List Output → Prop
  | quiet {p p' : Proc} : p'.isEmpty = true → Acted cfg t p t p' []
  | invalidated {request : HttpRequest} {valid : ValidRequest} {callback : PyStr} :
      submitChecks cfg request = .ok valid →
      storedCallback cfg valid.lmsCallbackUrl = .ok callback →
        Acted cfg t .idle (invalidatePriorSubmissions callback t)
          (.submitting request valid callback) [.invalidated callback]
  | notStored {request : HttpRequest} {valid : ValidRequest} {callback : PyStr} :
      Acted cfg t (.submitting request valid callback) t .idle []
  | stored {request : HttpRequest} {valid : ValidRequest} {callback : PyStr}
      (s3Urls s3Keys : PyStr) (now : DateTime) : t.nextKey ≤ maxId →
      Acted cfg t (.submitting request valid callback)
        (t.insert (newSubmission request valid callback s3Urls s3Keys now) (fun _ => rfl)) .idle
        [.inserted request (newSubmission request valid callback s3Urls s3Keys now t.nextKey)]
  | read {p : Proc} (task : Task) (rest : Rest) :
      (∀ s ∈ rest.rows, s ∈ t ∧ task.MayRead cfg s) → Acted cfg t p t (task.resume rest) []
  | deleted {date : DateTime} {options : DeleteOptions} (ids : List Nat) :
      Acted cfg t (.removing date options ids) (deleteBatch ids t) (.pausing date options) []
  | raised {task : Task} {s : Submission} {rest : Rest} {env : WorkEnv} {os : List Output}
      {e : PyExc} : task.work cfg env s = (os, .error e) →
        Acted cfg t (.working task s rest) t .idle os
  | worked {task : Task} {s c : Submission} {rest : Rest} {env : WorkEnv} {os : List Output} :
      task.work cfg env s = (os, .ok c) →
        Acted cfg t (.working task s rest) t (.saving task c rest) os
  | saved {task : Task} {c : Submission} {rest : Rest} (fetch : HttpResult) (now : DateTime) :
      Acted cfg t (.saving task c rest) (task.finish cfg fetch now c t).1 (task.resume rest)
        (task.finish cfg fetch now c t).2

variable {cfg : Config} {free : Nat → Bool} {t t' : Table} {p p' : Proc} {a : Act}
  {os : List Output}

theorem reads_one {task : Task} {s : Submission} (hs : s ∈ t) (hread : task.MayRead cfg s) :
    Acted cfg t p t (.working task s ⟨[], []⟩) [] := by
  refine Acted.read task ⟨[s], []⟩ ?_
  intro r hr
  have : r = s := by simpa using hr
  subst this
  exact ⟨hs, hread⟩

theorem acted_of_act (h : p.act cfg free t a = some (t', p', os)) : Acted cfg t p t' p' os := by
  unfold Proc.act at h
  split at h
  · -- submit
    split at h
    · cases h
      exact Acted.quiet rfl
    · rename_i hchecks
      split at h
      · cases h
        exact Acted.quiet rfl
      · rename_i hcallback
        split at h
        · cases h
          exact Acted.invalidated hchecks hcallback
        · cases h
  · -- store
    rename_i request valid callback storage env
    cases h
    -- an upload or the INSERT has failed, or the row is there
    rcases storeSubmission_cases cfg storage env request valid callback 0 t with
      ⟨htable, hout⟩ | ⟨urlsJson, keysJson, -, hid, htable, hout⟩
    · rw [htable, hout]
      exact Acted.notStored
    · rw [htable, hout]
      exact Acted.stored urlsJson keysJson env.now hid
  · -- get_submission
    split at h
    · cases h
      exact Acted.quiet rfl
    · split at h
      · cases h
        exact Acted.quiet rfl
      · rename_i hget
        cases h
        exact reads_one (mem_of_getSingleSubmission hget) (retired_of_getSingleSubmission hget)
  · -- put_result
    split at h
    · cases h
      exact Acted.quiet rfl
    · rename_i hchecks
      split at h
      · cases h
        rcases putResultChecks_eq_ok.1 hchecks with ⟨-, -, hs, haccepted⟩
        exact reads_one hs haccepted
      · cases h
  · -- the push worker
    split at h
    · cases h
      exact Acted.quiet rfl
    · rename_i hget
      cases h
      exact reads_one (mem_of_getSingleSubmission hget) (retired_of_getSingleSubmission hget)
  · -- retire_failed_submissions
    cases h
    exact Acted.quiet rfl
  · -- the query of a pass
    cases h
    refine Acted.read _ _ ?_
    intro s hs
    rcases mem_failedSubmissions.1 hs with ⟨hmem, hfailed, hlimit⟩
    exact ⟨hmem, retired_of_isFailed hfailed, hlimit⟩
  · -- retire_old_submissions
    split at h
    · cases h
      exact Acted.quiet rfl
    · cases h
      refine Acted.read _ _ ?_
      intro s hs
      rcases mem_order_filter.1 hs with ⟨hmem, hold⟩
      exact ⟨hmem, retired_of_isOldIn hold⟩
  · -- delete_old_submissions
    split at h
    · cases h
      exact Acted.quiet rfl
    · cases h
      exact Acted.quiet rfl
  · -- the query of a batch
    split at h
    · cases h
      exact Acted.quiet rfl
    · cases h
      exact Acted.quiet rfl
  · -- the deletion of a batch
    split at h
    · cases h
      exact Acted.deleted _
    · cases h
  · -- the query before it sleeps
    split at h
    · cases h
      exact Acted.quiet rfl
    · cases h
      exact Acted.quiet rfl
  · -- work
    split at h
    · rename_i hwork
      cases h
      exact Acted.raised hwork
    · rename_i hwork
      cases h
      exact Acted.worked hwork
  · -- save
    split at h
    · cases h
      exact Acted.saved _ _
    · cases h
  · cases h

theorem acted_of_step {st st' : State} {pid : Nat} (h : st.step cfg (pid, a) = some (st', os)) :
    ∃ t p, Acted cfg st.table (st.proc pid) t p os ∧
      st' = ⟨t, st.relock pid p, Function.update st.proc pid p⟩ := by
  simp only [State.step] at h
  split at h
  · cases h
  · rename_i t p outputs hact
    cases h
    exact ⟨t, p, acted_of_act hact, rfl⟩

/-! ## Properties of rows and of instances in flight -/

/-- A property of rows that every operation keeps, together with what it has to know of an
instance before the work and after it; all three may refer to the outputs so far. -/
structure RowProperty (cfg : Config) where
  row : List Output → Submission → Prop
  held : List Output → Task → Submission → Prop
  worked : List Output → Task → Submission → Prop
  row_append : ∀ {os s}, row os s → ∀ o, row (os ++ o) s
  held_append : ∀ {os task s}, held os task s → ∀ o, held (os ++ o) task s
  worked_append : ∀ {os task s}, worked os task s → ∀ o, worked (os ++ o) task s
  read : ∀ {os task s}, row os s → task.MayRead cfg s → held os task s
  work : ∀ {os task s env o c}, held os task s → task.work cfg env s = (o, .ok c) →
    worked (os ++ o) task c
  save : ∀ {os task c}, worked os task c → ∀ fetch, row (os ++ task.replies fetch c) c
  retire : ∀ {os s}, row os s → .invalidated s.lmsCallbackUrl ∈ os → row os s.retire
  arrival : ∀ {os s}, row os s → ∀ now, row os { s with arrivalTime := now }
  inserted : ∀ {os request valid callback}, submitChecks cfg request = .ok valid →
    storedCallback cfg valid.lmsCallbackUrl = .ok callback → ∀ s3Urls s3Keys now id, id ≤ maxId →
      row (os ++ [.inserted request (newSubmission request valid callback s3Urls s3Keys now id)])
        (newSubmission request valid callback s3Urls s3Keys now id)

namespace RowProperty

/-- The property for what a process holds; a pending insert comes from an accepted request. -/
def proc (P : RowProperty cfg) (os : List Output) : Proc → Prop
  | .submitting request valid callback =>
      submitChecks cfg request = .ok valid ∧ storedCallback cfg valid.lmsCallbackUrl = .ok callback
  | .working task s rest => P.held os task s ∧ ∀ r ∈ rest.rows, P.held os task r
  | .saving task c rest => P.worked os task c ∧ ∀ r ∈ rest.rows, P.held os task r
  | _ => True

/-- The property for every stored row and every instance in flight. -/
structure Kept (P : RowProperty cfg) (os : List Output) (st : State) : Prop where
  rows : ∀ r ∈ st.table, P.row os r
  procs : ∀ pid, P.proc os (st.proc pid)

variable {P : RowProperty cfg}

theorem proc_append (h : P.proc os p) (o : List Output) : P.proc (os ++ o) p := by
  cases p with
  | submitting request valid callback => exact h
  | working task s rest =>
      exact ⟨P.held_append h.1 o, fun r hr => P.held_append (h.2 r hr) o⟩
  | saving task c rest =>
      exact ⟨P.worked_append h.1 o, fun r hr => P.held_append (h.2 r hr) o⟩
  | _ => trivial

theorem proc_of_isEmpty (h : p.isEmpty = true) : P.proc os p := by
  cases p with
  | submitting request valid callback => cases h
  | working task s rest => cases h
  | saving task c rest => cases h
  | _ => trivial

theorem proc_resume {task : Task} {rest : Rest} (h : ∀ r ∈ rest.rows, P.held os task r) :
    P.proc os (task.resume rest) := by
  rcases rest with ⟨_ | ⟨s, rows⟩, scopes⟩
  · cases task <;> cases scopes <;> trivial
  · exact ⟨h s (by simp), fun r hr => h r (by simp [hr])⟩

/-- The rows after the save of an instance that has been worked on. -/
theorem row_finish {task : Task} {c r : Submission} {fetch : HttpResult} {now : DateTime}
    (hrows : ∀ r ∈ t, P.row os r) (hc : P.worked os task c)
    (hr : r ∈ (task.finish cfg fetch now c t).1) :
    P.row (os ++ (task.finish cfg fetch now c t).2) r := by
  rcases finish_cases cfg task fetch now c t with ⟨-, heq⟩ | heq
  · rw [heq] at hr ⊢
    exact P.row_append (hrows r hr) []
  · rw [heq] at hr ⊢
    rcases mem_save.1 hr with rfl | ⟨hmem, _⟩
    · rcases asStored_cases now c t with heq | heq
      · rw [heq]
        exact P.save hc fetch
      · rw [heq]
        exact P.arrival (P.save hc fetch) now
    · exact P.row_append (hrows r hmem) _

theorem kept_acted (hact : Acted cfg t p t' p' os) {o : List Output}
    (hrows : ∀ r ∈ t, P.row o r) (hproc : P.proc o p) :
    (∀ r ∈ t', P.row (o ++ os) r) ∧ P.proc (o ++ os) p' := by
  have hrows' : ∀ r ∈ t, P.row (o ++ os) r := fun r hr => P.row_append (hrows r hr) os
  cases hact with
  | quiet hempty => exact ⟨hrows', proc_of_isEmpty hempty⟩
  | @invalidated request valid callback hchecks hcallback =>
      refine ⟨?_, hchecks, hcallback⟩
      intro r hr
      rcases mem_invalidate.1 hr with ⟨s, hs, rfl⟩
      split
      · rename_i hprior
        refine P.retire (hrows' s hs) (List.mem_append_right _ ?_)
        rw [(isPrior_iff.1 hprior).1]
        exact List.mem_singleton_self _
      · exact hrows' s hs
  | notStored => exact ⟨hrows', trivial⟩
  | stored s3Urls s3Keys now hid =>
      refine ⟨?_, trivial⟩
      intro r hr
      rcases KeyedTable.mem_insert.1 hr with hr | rfl
      · exact hrows' r hr
      · exact P.inserted hproc.1 hproc.2 s3Urls s3Keys now t.nextKey hid
  | read task rest hread =>
      exact ⟨hrows', proc_resume fun s hs => P.read (hrows' s (hread s hs).1) (hread s hs).2⟩
  | deleted ids => exact ⟨fun r hr => hrows' r (mem_deleteBatch.1 hr).1, trivial⟩
  | raised _ => exact ⟨hrows', trivial⟩
  | worked hwork =>
      exact ⟨hrows', P.work hproc.1 hwork, fun r hr => P.held_append (hproc.2 r hr) os⟩
  | saved fetch now =>
      refine ⟨fun r hr => row_finish hrows hproc.1 hr, ?_⟩
      exact proc_resume fun r hr => P.held_append (hproc.2 r hr) _

theorem Kept.step {st st' : State} {o : List Output} {pid : Nat} (h : P.Kept o st)
    (hstep : st.step cfg (pid, a) = some (st', os)) : P.Kept (o ++ os) st' := by
  rcases acted_of_step hstep with ⟨t, p, hact, rfl⟩
  have hkept := kept_acted hact h.rows (h.procs pid)
  refine ⟨hkept.1, ?_⟩
  -- the process that has moved, or another one with more outputs behind it
  intro q
  by_cases hq : q = pid
  · subst hq
    simpa using hkept.2
  · simpa [Function.update_of_ne hq] using proc_append (h.procs q) os

theorem kept_start (h : ∀ r ∈ t, P.row [] r) : P.Kept [] (State.start t) :=
  ⟨h, fun _ => trivial⟩

/-- The property holds of every row and instance at the end of every interleaving. -/
theorem kept_of_run {ok : State → Nat × Act → Prop} {as : List (Nat × Act)} {st : State}
    (hrun : Run (interleavedSystem cfg) ok (State.start t) as os st) (h : ∀ r ∈ t, P.row [] r) :
    P.Kept os st :=
  hrun.invariant (I := fun os st => P.Kept os st) (kept_start h)
    (fun _ _ _ _ _ hI _ hs => hI.step hs)

end RowProperty

end Xqueue
