import Xqueue.Atomic
import Xqueue.Interleaved

/-!
# Sequential — whole operations as interleavings

`atomicSystem` performs one operation after another and `interleavedSystem` the steps of many.
A process that runs on its own links the two:

* `soloSystem` : a single process, which no lock holds up;
* `solo_step` : its steps are steps of the interleaved system, with all other processes idle;
* `solo_of_event` : every event is a run of its steps, from idle to idle;
* `interleaved_of_atomic` : every run of events is an interleaving with the same outputs.
-/

namespace Xqueue

open Library
open Library.System

variable {cfg : Config} {t t' : Table} {p p' : Proc} {a : Act} {os : List Output}

/-! ## A process on its own -/

def soloSystem (cfg : Config) : System (Table × Proc) Act Output where
  step := fun st a =>
    match st.2.act cfg (fun _ => true) st.1 a with
    | none => none
    | some (t, p, outputs) => some ((t, p), outputs)

/-- The state in which `pid` stands at `p`, holds its own lock, and all others are idle. -/
def State.solo (pid : Nat) (st : Table × Proc) : State where
  table := st.1
  lock := fun id => if st.2.locked = some id then some pid else none
  proc := Function.update (fun _ => .idle) pid st.2

theorem solo_idle (pid : Nat) (t : Table) : State.solo pid (t, .idle) = State.start t := by
  simp [State.solo, State.start, Proc.locked]

theorem free_solo (pid : Nat) (st : Table × Proc) : (State.solo pid st).free pid = fun _ => true := by
  funext id
  by_cases h : st.2.locked = some id <;> simp [State.free, State.solo, h]

theorem relock_solo (pid : Nat) (st : Table × Proc) (p : Proc) :
    (State.solo pid st).relock pid p = fun id => if p.locked = some id then some pid else none := by
  funext id
  by_cases h : st.2.locked = some id <;> simp [State.relock, State.solo, h]

theorem solo_step (pid : Nat) {st st' : Table × Proc} (h : (soloSystem cfg).step st a = some (st', os)) :
    (interleavedSystem cfg).step (State.solo pid st) (pid, a) = some (State.solo pid st', os) := by
  simp only [soloSystem] at h
  split at h
  · cases h
  · rename_i t p outputs hact
    cases h
    have hproc : (State.solo pid st).proc pid = st.2 := by simp [State.solo]
    simp only [interleavedSystem, State.step, hproc, free_solo, relock_solo]
    simp [State.solo, hact]

theorem solo_act {p' : Proc} {as : List Act} {os' : List Output} {st : Table × Proc}
    (h : p.act cfg (fun _ => true) t a = some (t', p', os))
    (hrest : Run (soloSystem cfg) Free (t', p') as os' st) :
    Run (soloSystem cfg) Free (t, p) (a :: as) (os ++ os') st :=
  Run.cons trivial (by simp [soloSystem, h]) hrest

/-! ## The steps of each operation -/

/-- After the work on a row: on with the rest, unless an exception has ended the operation. -/
def Task.after (task : Task) (rest : Rest) : Except PyExc Submission → Proc
  | .error _ => .idle
  | .ok _ => task.resume rest

/-- The work and the save of a process are the move of the atomic model. -/
theorem solo_work (cfg : Config) (t : Table) (task : Task) (env : WorkEnv) (s : Submission)
    (rest : Rest) (fetch : HttpResult) (now : DateTime) :
    ∃ as, Run (soloSystem cfg) Free (t, .working task s rest) as
      ((Move.work task env s fetch now).run cfg t).2
      (((Move.work task env s fetch now).run cfg t).1, task.after rest (task.work cfg env s).2) := by
  rcases hw : task.work cfg env s with ⟨o, e | c⟩
  · have hwork : (Proc.working task s rest).act cfg (fun _ => true) t (.work env) =
        some (t, .idle, o) := by
      simp [Proc.act, hw]
    refine ⟨[.work env], ?_⟩
    simpa [Move.run, hw, Task.after] using solo_act hwork (Run.nil _)
  · have hwork : (Proc.working task s rest).act cfg (fun _ => true) t (.work env) =
        some (t, .saving task c rest, o) := by
      simp [Proc.act, hw]
    have hsave : (Proc.saving task c rest).act cfg (fun _ => true) t (.save fetch now) =
        some ((task.finish cfg fetch now c t).1, task.resume rest,
          (task.finish cfg fetch now c t).2) := by
      simp [Proc.act]
    refine ⟨[.work env, .save fetch now], ?_⟩
    simpa [Move.run, hw, Task.after] using solo_act hwork (solo_act hsave (Run.nil _))

theorem solo_of_submit (storage : Storage Nat) (env : SubmitEnv) (request : HttpRequest) :
    ∃ as, Run (soloSystem cfg) Free (t, .idle) as (submit cfg storage env request 0 t).2.outputs
      ((submit cfg storage env request 0 t).2.table, .idle) := by
  cases hchecks : submitChecks cfg request with
  | error response =>
      have hact : Proc.idle.act cfg (fun _ => true) t (.submit request) = some (t, .idle, []) := by
        simp [Proc.act, hchecks]
      exact ⟨_, by simpa [submit, hchecks] using solo_act hact (Run.nil _)⟩
  | ok valid =>
      cases hcallback : storedCallback cfg valid.lmsCallbackUrl with
      | error e =>
          have hact : Proc.idle.act cfg (fun _ => true) t (.submit request) =
              some (t, .idle, []) := by
            simp [Proc.act, hchecks, hcallback]
          exact ⟨_, by simpa [submit, hchecks, hcallback] using solo_act hact (Run.nil _)⟩
      | ok callback =>
          -- the invalidation, then the uploads and the INSERT
          have hact : Proc.idle.act cfg (fun _ => true) t (.submit request) =
              some (invalidatePriorSubmissions callback t, .submitting request valid callback,
                [.invalidated callback]) := by
            simp [Proc.act, hchecks, hcallback]
          have hstore : (Proc.submitting request valid callback).act cfg (fun _ => true)
              (invalidatePriorSubmissions callback t) (.store storage env) = some (_, .idle, _) := rfl
          exact ⟨_, by
            simpa [submit, hchecks, hcallback] using solo_act hact (solo_act hstore (Run.nil _))⟩

theorem solo_of_getSubmission (env : PullEnv) (request : HttpRequest) :
    ∃ as, Run (soloSystem cfg) Free (t, .idle) as (getSubmission cfg env request t).outputs
      ((getSubmission cfg env request t).table, .idle) := by
  cases hchecks : getSubmissionChecks cfg request with
  | error response =>
      have hact : Proc.idle.act cfg (fun _ => true) t
          (.getSubmission request env.plan env.queryTime) = some (t, .idle, []) := by
        simp [Proc.act, hchecks]
      exact ⟨_, by simpa [getSubmission, hchecks] using solo_act hact (Run.nil _)⟩
  | ok queueName =>
      cases hget : getSingleUnretiredSubmission cfg env.plan env.queryTime queueName t with
      | none =>
          have hact : Proc.idle.act cfg (fun _ => true) t
              (.getSubmission request env.plan env.queryTime) = some (t, .idle, []) := by
            simp [Proc.act, hchecks, hget]
          exact ⟨_, by simpa [getSubmission, hchecks, hget] using solo_act hact (Run.nil _)⟩
      | some s =>
          have hact : Proc.idle.act cfg (fun _ => true) t
              (.getSubmission request env.plan env.queryTime) =
                some (t, .working (.pull request) s ⟨[], []⟩, []) := by
            simp [Proc.act, hchecks, hget]
          rcases solo_work cfg t (.pull request)
            ⟨env.pullTime, env.pullTime, .timeout, fun _ => .timeout⟩ s ⟨[], []⟩ env.fetch
            env.pullTime with ⟨as, hrun⟩
          exact ⟨_, by
            simpa [getSubmission, hchecks, hget, pull_eq_ok, Move.run, Task.work, Task.finish,
              Task.after, Task.resume] using solo_act hact hrun⟩

/-- What a process with one row to work on does, as the end of an operation. -/
theorem solo_finish (task : Task) (env : WorkEnv) (s : Submission) (rest : Rest) (now : DateTime)
    (hfinish : ∀ c, task.finish cfg .timeout now c t = (save now c t, [])) :
    ∃ as, Run (soloSystem cfg) Free (t, .working task s rest) as
      ((task.work cfg env s).finish now t).outputs
      (((task.work cfg env s).finish now t).table, task.after rest (task.work cfg env s).2) := by
  rcases solo_work cfg t task env s rest .timeout now with ⟨as, hrun⟩
  refine ⟨as, ?_⟩
  rcases hw : task.work cfg env s with ⟨o, e | c⟩
  · simpa [Move.run, hw, Work.finish] using hrun
  · simpa [Move.run, hw, Work.finish, hfinish c] using hrun

theorem after_idle {task : Task} {result : Except PyExc Submission} :
    task.after ⟨[], []⟩ result = .idle := by
  cases result with
  | error e => rfl
  | ok c => cases task <;> rfl

theorem solo_of_putResult (env : WorkEnv) (request : HttpRequest) :
    ∃ as, Run (soloSystem cfg) Free (t, .idle) as (putResult cfg env request t).outputs
      ((putResult cfg env request t).table, .idle) := by
  rcases hchecks : putResultChecks request t with response | ⟨s, graderReply⟩
  · have hact : Proc.idle.act cfg (fun _ => true) t (.putResult request) = some (t, .idle, []) := by
      simp [Proc.act, hchecks]
    exact ⟨_, by simpa [putResult, hchecks] using solo_act hact (Run.nil _)⟩
  · have hact : Proc.idle.act cfg (fun _ => true) t (.putResult request) =
        some (t, .working (.put request graderReply) s ⟨[], []⟩, []) := by
      simp [Proc.act, hchecks]
    rcases solo_finish (.put request graderReply) env s ⟨[], []⟩ env.now (fun c => rfl) with
      ⟨as, hrun⟩
    rw [after_idle] at hrun
    exact ⟨_, by simpa [putResult, hchecks, Task.work] using solo_act hact hrun⟩

theorem solo_of_deliverSubmission (env : PushEnv) (worker : Worker) :
    ∃ as, Run (soloSystem cfg) Free (t, .idle) as (worker.deliverSubmission cfg env t).outputs
      ((worker.deliverSubmission cfg env t).table, .idle) := by
  cases hget : getSingleUnpushedSubmission cfg env.plan env.queryTime worker.queueName t with
  | none =>
      have hact : Proc.idle.act cfg (fun _ => true) t
          (.deliverSubmission worker env.plan env.queryTime) = some (t, .idle, []) := by
        simp [Proc.act, hget]
      exact ⟨_, by simpa [Worker.deliverSubmission, hget] using solo_act hact (Run.nil _)⟩
  | some s =>
      have hact : Proc.idle.act cfg (fun _ => true) t
          (.deliverSubmission worker env.plan env.queryTime) =
            some (t, .working (.push worker) s ⟨[], []⟩, []) := by
        simp [Proc.act, hget]
      rcases solo_finish (.push worker) env.toWorkEnv s ⟨[], []⟩ env.returnTime (fun c => rfl) with
        ⟨as, hrun⟩
      rw [after_idle] at hrun
      exact ⟨_, by simpa [Worker.deliverSubmission, hget, Task.work] using solo_act hact hrun⟩

/-! ## The commands -/

/-- After a loop over rows: on with the scopes that are left, unless an exception has ended it. -/
def Task.afterLoop (task : Task) (scopes : List (Option PyStr)) : Except PyExc Unit → Proc
  | .error _ => .idle
  | .ok () => task.resume ⟨[], scopes⟩

theorem solo_of_saveEach (task : Task) (workEnv : Submission → WorkEnv)
    (scopes : List (Option PyStr)) (now : DateTime)
    (hfinish : ∀ c t, task.finish cfg .timeout now c t = (save now c t, [])) :
    ∀ (rows : List Submission) (t : Table), ∃ as,
      Run (soloSystem cfg) Free (t, task.resume ⟨rows, scopes⟩) as
        (saveEach (fun s => task.work cfg (workEnv s) s) now rows t).outputs
        ((saveEach (fun s => task.work cfg (workEnv s) s) now rows t).table,
          task.afterLoop scopes (saveEach (fun s => task.work cfg (workEnv s) s) now rows t).result) := by
  intro rows
  induction rows with
  | nil =>
      intro t
      exact ⟨[], Run.nil _⟩
  | cons s rows ih =>
      intro t
      rcases solo_finish task (workEnv s) s ⟨rows, scopes⟩ now (fun c => hfinish c t) with
        ⟨as, hrun⟩
      rcases hw : task.work cfg (workEnv s) s with ⟨o, e | c⟩
      · refine ⟨as, ?_⟩
        simpa [saveEach, hw, Work.finish, Task.after, Task.afterLoop, Task.resume] using hrun
      · rcases ih (save now c t) with ⟨as', hrun'⟩
        simp only [hw, Work.finish, Task.after] at hrun
        refine ⟨as ++ as', ?_⟩
        simpa [saveEach, hw, Work.finish, Task.resume] using hrun.append hrun'

theorem solo_of_retirePasses (env : CommandEnv) (force : Bool) :
    ∀ (scopes : List (Option PyStr)) (pass : Nat) (t : Table), ∃ as,
      Run (soloSystem cfg) Free (t, (Task.retireFailed force).resume ⟨[], scopes⟩) as
        (retirePasses cfg env force pass scopes t).outputs
        ((retirePasses cfg env force pass scopes t).table, .idle) := by
  intro scopes
  induction scopes with
  | nil =>
      intro pass t
      exact ⟨[], Run.nil _⟩
  | cons scope scopes ih =>
      intro pass t
      have hquery : ((Task.retireFailed force).resume ⟨[], scope :: scopes⟩).act cfg (fun _ => true) t
          (.query (env.plan pass)) = some (t, (Task.retireFailed force).resume
            ⟨failedSubmissions cfg (env.plan pass) scope t, scopes⟩, []) := rfl
      rcases solo_of_saveEach (.retireFailed force) (env.workEnv pass) scopes env.now (fun _ _ => rfl)
        (failedSubmissions cfg (env.plan pass) scope t) t with ⟨as, hrun⟩
      -- the query, and the loop over its rows
      let ended := saveEach (fun s => s.retireFailed force (env.lms pass s.id)) env.now
        (failedSubmissions cfg (env.plan pass) scope t) t
      have hpass : Run (soloSystem cfg) Free (t, (Task.retireFailed force).resume ⟨[], scope :: scopes⟩)
          (.query (env.plan pass) :: as) ended.outputs
          (ended.table, (Task.retireFailed force).afterLoop scopes ended.result) :=
        solo_act hquery hrun
      rcases hresult : ended.result with e | _
      · refine ⟨.query (env.plan pass) :: as, ?_⟩
        rw [hresult] at hpass
        simp only [retirePasses]
        split
        · exact hpass
        · rename_i hok
          exact absurd (hresult.symm.trans hok) (by simp)
      · rcases ih (pass + 1) ended.table with ⟨as', hrun'⟩
        refine ⟨.query (env.plan pass) :: as ++ as', ?_⟩
        rw [hresult] at hpass
        simp only [retirePasses]
        split
        · rename_i e herr
          exact absurd (hresult.symm.trans herr) (by simp)
        · exact hpass.append hrun'

theorem solo_of_retireFailedSubmissions (env : CommandEnv) (force : Bool) (queueNames : List PyStr) :
    ∃ as, Run (soloSystem cfg) Free (t, .idle) as
      (retireFailedSubmissions cfg env force queueNames t).outputs
      ((retireFailedSubmissions cfg env force queueNames t).table, .idle) := by
  have hresume : (Task.retireFailed force).resume ⟨[], scopesOf queueNames⟩ =
      .querying force (scopesOf queueNames) := by
    cases queueNames <;> rfl
  have hact : Proc.idle.act cfg (fun _ => true) t (.retireFailedSubmissions force queueNames) =
      some (t, .querying force (scopesOf queueNames), []) := rfl
  rcases solo_of_retirePasses env force (scopesOf queueNames) 0 t with ⟨as, hrun⟩
  rw [hresume] at hrun
  exact ⟨_, solo_act hact hrun⟩

theorem solo_of_retireOldSubmissions (env : CommandEnv) (queueName : PyStr)
    (retireBefore : Option PyStr) :
    ∃ as, Run (soloSystem cfg) Free (t, .idle) as
      (retireOldSubmissions cfg env queueName retireBefore t).outputs
      ((retireOldSubmissions cfg env queueName retireBefore t).table, .idle) := by
  cases hbound : retireBound cfg retireBefore with
  | error e =>
      have hact : Proc.idle.act cfg (fun _ => true) t
          (.retireOldSubmissions queueName retireBefore (env.plan 0)) = some (t, .idle, []) := by
        simp [Proc.act, hbound]
      exact ⟨_, by simpa [retireOldSubmissions, hbound] using solo_act hact (Run.nil _)⟩
  | ok bound =>
      have hact : Proc.idle.act cfg (fun _ => true) t
          (.retireOldSubmissions queueName retireBefore (env.plan 0)) = some (t, Task.retireOld.resume
            ⟨(env.plan 0).order (t.rows.filter (isOldIn queueName bound)), []⟩, []) := by
        simp [Proc.act, hbound]
      rcases solo_of_saveEach .retireOld (env.workEnv 0) [] env.now (fun _ _ => rfl)
        ((env.plan 0).order (t.rows.filter (isOldIn queueName bound))) t with ⟨as, hrun⟩
      have hidle : ∀ result, Task.retireOld.afterLoop [] result = .idle := by
        intro result
        cases result <;> rfl
      rw [hidle] at hrun
      exact ⟨_, by
        simpa [retireOldSubmissions, hbound, Task.work, CommandEnv.workEnv] using solo_act hact hrun⟩

/-! ## Every run of events -/

/-- Every event is what a process on its own makes of the operation. -/
theorem solo_of_event (cfg : Config) (t : Table) (e : Event) :
    ∃ as, Run (soloSystem cfg) Free (t, .idle) as (e.run cfg t).2 ((e.run cfg t).1, .idle) := by
  cases e with
  | submit storage env request => exact solo_of_submit storage env request
  | getSubmission env request => exact solo_of_getSubmission env request
  | putResult env request => exact solo_of_putResult env request
  | deliverSubmission env worker => exact solo_of_deliverSubmission env worker
  | retireFailedSubmissions env force queueNames =>
      exact solo_of_retireFailedSubmissions env force queueNames
  | retireOldSubmissions env queueName retireBefore =>
      exact solo_of_retireOldSubmissions env queueName retireBefore

/-- Operations that run one after another are an interleaving: it emits the same outputs, and
ends with the same table and all processes idle. -/
theorem interleaved_of_atomic {ok : Table → Event → Prop} {es : List Event} {u : Table}
    (h : Run (atomicSystem cfg) ok t es os u) :
    ∃ as, Run (interleavedSystem cfg) Free (State.start t) as os (State.start u) := by
  refine h.simulated State.start ?_
  intro t e u o hstep
  simp only [atomicSystem, Option.some.injEq] at hstep
  rcases solo_of_event cfg t e with ⟨as, hsolo⟩
  rw [hstep] at hsolo
  -- the solo run, as steps of the process 0
  have hfollow : ∀ st a st' o, (soloSystem cfg).step st a = some (st', o) →
      ∃ bs, Run (interleavedSystem cfg) Free (State.solo 0 st) bs o (State.solo 0 st') :=
    fun _ a _ _ hs => ⟨[(0, a)], Run.single trivial (solo_step 0 hs)⟩
  have hrun := hsolo.simulated (State.solo 0) hfollow
  rwa [solo_idle, solo_idle] at hrun

end Xqueue
