import Xqueue.Library.Transition
import Xqueue.LifeCycle

/-!
# Atomic — every operation as one step

`Event` is one whole operation with everything the outside answers to it, and `atomicSystem`
performs events on the table.  An event is a sequence of moves:

* `Move` : work on one stored row, retire the prior submissions of a callback, insert a row;
* `run_moves` : every event is a run of moves, each on a row that the event may work on
  (`Event.Performs`);
* `moves_invariant` : what every move preserves holds at the end of every run of events.
-/

namespace Xqueue

open Library
open Library.System

/-! ## Events -/

/-- An operation, run as a whole.  `delete_old_submissions` is none of these: it sleeps between its
chunks, and takes part in interleavings only. -/
inductive Event where
  | submit (storage : Storage Nat) (env : SubmitEnv) (request : HttpRequest)
  | getSubmission (env : PullEnv) (request : HttpRequest)
  | putResult (env : WorkEnv) (request : HttpRequest)
  | deliverSubmission (env : PushEnv) (worker : Worker)
  | retireFailedSubmissions (env : CommandEnv) (force : Bool) (queueNames : List PyStr)
  | retireOldSubmissions (env : CommandEnv) (queueName : PyStr) (retireBefore : Option PyStr)

/-- The clock readings of an event, in the order in which it takes them. -/
def Event.readings : Event → List DateTime
  | .submit _ env _ => [env.now, env.countTime]
  | .getSubmission env _ => [env.queryTime, env.pullTime]
  | .putResult env _ => [env.now]
  | .deliverSubmission env _ => [env.queryTime, env.now, env.returnTime]
  | .retireFailedSubmissions env _ _ => [env.now]
  | .retireOldSubmissions env _ _ => [env.now]

/-- What is left of an operation once its result has been returned. -/
def Ended.observed {α : Type} (ended : Ended α) : Table × List Output :=
  (ended.table, ended.outputs)

/-- The table and the outputs that an event leaves. -/
def Event.run (cfg : Config) (t : Table) : Event → Table × List Output
  | .submit storage env request => (Xqueue.submit cfg storage env request 0 t).2.observed
  | .getSubmission env request => (Xqueue.getSubmission cfg env request t).observed
  | .putResult env request => (Xqueue.putResult cfg env request t).observed
  | .deliverSubmission env worker => (worker.deliverSubmission cfg env t).observed
  | .retireFailedSubmissions env force queueNames =>
      (Xqueue.retireFailedSubmissions cfg env force queueNames t).observed
  | .retireOldSubmissions env queueName retireBefore =>
      (Xqueue.retireOldSubmissions cfg env queueName retireBefore t).observed

def atomicSystem (cfg : Config) : System Table Event Output where
  step := fun t e => some (e.run cfg t)

/-- The table after a list of events. -/
def tableAfter (cfg : Config) (es : List Event) (t : Table) : Table :=
  es.foldl (fun t e => (e.run cfg t).1) t

theorem exists_run_tableAfter (cfg : Config) (es : List Event) (t : Table) :
    ∃ os, Run (atomicSystem cfg) Free t es os (tableAfter cfg es t) := by
  induction es generalizing t with
  | nil => exact ⟨[], Run.nil t⟩
  | cons e es ih =>
      rcases ih (e.run cfg t).1 with ⟨os, hrun⟩
      exact ⟨(e.run cfg t).2 ++ os, Run.cons (o := (e.run cfg t).2) trivial rfl hrun⟩

theorem reachable_tableAfter (cfg : Config) (es : List Event) (t : Table) :
    (atomicSystem cfg).Reachable t (tableAfter cfg es t) := by
  rcases exists_run_tableAfter cfg es t with ⟨os, hrun⟩
  exact ⟨es, os, hrun⟩

theorem reachable_run {cfg : Config} {t u : Table} (e : Event) (h : (atomicSystem cfg).Reachable t u) :
    (atomicSystem cfg).Reachable t (e.run cfg u).1 := by
  rcases h with ⟨es, os, hrun⟩
  exact ⟨_, _, hrun.snoc trivial rfl⟩

/-! ## Moves -/

inductive Move where
  | work (task : Task) (env : WorkEnv) (s : Submission) (fetch : HttpResult) (now : DateTime)
  | supersede (callback : PyStr)
  | insert (request : HttpRequest) (valid : ValidRequest) (callback s3Urls s3Keys : PyStr)
      (now : DateTime)

def Move.run (cfg : Config) (t : Table) : Move → Table × List Output
  | .work task env s fetch now =>
      match task.work cfg env s with
      | (outputs, .error _) => (t, outputs)
      | (outputs, .ok c) =>
          ((task.finish cfg fetch now c t).1, outputs ++ (task.finish cfg fetch now c t).2)
  | .supersede callback => (invalidatePriorSubmissions callback t, [.invalidated callback])
  | .insert request valid callback s3Urls s3Keys now =>
      let mk := newSubmission request valid callback s3Urls s3Keys now
      (t.insert mk (fun _ => rfl), [.inserted request (mk t.nextKey)])

def moveSystem (cfg : Config) : System Table Move Output where
  step := fun t m => some (m.run cfg t)

/-- Which work, in which environment, an operation may do on which row. -/
abbrev Performs : Type :=
  Task → WorkEnv → Submission → Prop

/-- The moves an operation can make: work on a stored row, and the two steps of a submit. -/
inductive Legit (cfg : Config) (performs : Performs) (t : Table) : Move → Prop
  | work {task : Task} {env : WorkEnv} {s : Submission} (fetch : HttpResult) (now : DateTime) :
      s ∈ t → performs task env s → Legit cfg performs t (.work task env s fetch now)
  | supersede (callback : PyStr) : Legit cfg performs t (.supersede callback)
  | insert {request : HttpRequest} {valid : ValidRequest} {callback : PyStr}
      (s3Urls s3Keys : PyStr) (now : DateTime) :
      submitChecks cfg request = .ok valid →
      storedCallback cfg valid.lmsCallbackUrl = .ok callback → PyStr.Encodable s3Urls →
      t.nextKey ≤ maxId →
        Legit cfg performs t (.insert request valid callback s3Urls s3Keys now)

/-- The work of a retiring command on one row. -/
def CommandEnv.workEnv (env : CommandEnv) (pass : Nat) (s : Submission) : WorkEnv where
  now := env.now
  returnTime := env.now
  grader := .timeout
  lms := env.lms pass s.id

/-- The work that an event, started on the table `t`, may do. -/
def Event.Performs (cfg : Config) (t : Table) : Event → Performs
  | .submit _ _ _, _, _, _ => False
  | .getSubmission env request, task, workEnv, s =>
      task = .pull request ∧ workEnv.now = env.pullTime ∧
        ∃ queueName, getSubmissionChecks cfg request = .ok queueName ∧
          getSingleUnretiredSubmission cfg env.plan env.queryTime queueName t = some s
  | .putResult env request, task, workEnv, s =>
      workEnv = env ∧ ∃ graderReply, task = .put request graderReply ∧
        putResultChecks request t = .ok (s, graderReply)
  | .deliverSubmission env worker, task, workEnv, s =>
      task = .push worker ∧ workEnv = env.toWorkEnv ∧
        getSingleUnpushedSubmission cfg env.plan env.queryTime worker.queueName t = some s
  | .retireFailedSubmissions env force queueNames, task, workEnv, s =>
      task = .retireFailed force ∧ ∃ pass, workEnv = env.workEnv pass s ∧
        (∃ scope ∈ scopesOf queueNames, isFailed scope s = true) ∧ reachesLimit cfg s = true
  | .retireOldSubmissions env queueName retireBefore, task, workEnv, s =>
      task = .retireOld ∧ workEnv = env.workEnv 0 s ∧
        ∃ bound, retireBound cfg retireBefore = .ok bound ∧ isOldIn queueName bound s = true

variable {cfg : Config} {performs : Performs} {t : Table} {s : Submission}

/-- Every operation but `put_result` works on rows that are not retired. -/
theorem performs_cases {e : Event} {task : Task} {env : WorkEnv} (h : e.Performs cfg t task env s) :
    s.retired = false ∨ ∃ request graderReply, e = .putResult env request ∧
      task = .put request graderReply ∧ putResultChecks request t = .ok (s, graderReply) := by
  cases e with
  | submit storage env' request => exact h.elim
  | getSubmission env' request =>
      rcases h with ⟨-, -, queueName, -, hget⟩
      exact Or.inl (retired_of_getSingleSubmission hget)
  | putResult env' request =>
      rcases h with ⟨rfl, graderReply, rfl, hchecks⟩
      exact Or.inr ⟨request, graderReply, rfl, rfl, hchecks⟩
  | deliverSubmission env' worker =>
      rcases h with ⟨-, -, hget⟩
      exact Or.inl (retired_of_getSingleSubmission hget)
  | retireFailedSubmissions env' force queueNames =>
      rcases h with ⟨-, pass, -, ⟨scope, -, hfailed⟩, -⟩
      exact Or.inl (retired_of_isFailed hfailed)
  | retireOldSubmissions env' queueName retireBefore =>
      rcases h with ⟨-, -, bound, -, hold⟩
      exact Or.inl (retired_of_isOldIn hold)

/-! ## What a move can do -/

/-- Every effect a legitimate move can have on the table and the outputs. -/
inductive Moved (cfg : Config) (performs : Performs) (t : Table) : Table → List Output → Prop
  /-- The work has raised an exception. -/
  | raised {task : Task} {env : WorkEnv} {s : Submission} {os : List Output} {e : PyExc} :
      s ∈ t → performs task env s → task.work cfg env s = (os, .error e) →
        Moved cfg performs t t os
  /-- A pull has been undone with its reply. -/
  | undone : Moved cfg performs t t []
  | saved {task : Task} {env : WorkEnv} {s c : Submission} {os : List Output} (fetch : HttpResult)
      (now : DateTime) :
      s ∈ t → performs task env s → task.work cfg env s = (os, .ok c) →
        Moved cfg performs t (save now c t) (os ++ task.replies fetch c)
  | superseded (callback : PyStr) :
      Moved cfg performs t (invalidatePriorSubmissions callback t) [.invalidated callback]
  | inserted {request : HttpRequest} {valid : ValidRequest} {callback : PyStr}
      (s3Urls s3Keys : PyStr) (now : DateTime) :
      submitChecks cfg request = .ok valid →
      storedCallback cfg valid.lmsCallbackUrl = .ok callback → PyStr.Encodable s3Urls →
      t.nextKey ≤ maxId →
        Moved cfg performs t
          (t.insert (newSubmission request valid callback s3Urls s3Keys now) (fun _ => rfl))
          [.inserted request (newSubmission request valid callback s3Urls s3Keys now t.nextKey)]

theorem moved_of_legit {m : Move} (h : Legit cfg performs t m) :
    Moved cfg performs t (m.run cfg t).1 (m.run cfg t).2 := by
  cases h with
  | supersede callback => exact Moved.superseded callback
  | insert s3Urls s3Keys now hchecks hcallback hurls hid =>
      exact Moved.inserted s3Urls s3Keys now hchecks hcallback hurls hid
  | @work task env s fetch now hs hp =>
      rcases hwork : task.work cfg env s with ⟨os, e | c⟩
      · simpa [Move.run, hwork] using Moved.raised hs hp hwork
      · rcases finish_cases cfg task fetch now c t with ⟨⟨request, rfl⟩, heq⟩ | heq
        · simp only [Task.work, Prod.mk.injEq] at hwork
          rcases hwork with ⟨rfl, hpull⟩
          simpa [Move.run, Task.work, hpull, heq] using Moved.undone
        · simpa [Move.run, hwork, heq] using Moved.saved fetch now hs hp hwork

/-- The rows after the save of the instance that has been worked on. -/
theorem mem_save_worked {task : Task} {env : WorkEnv} {c r : Submission} {os : List Output}
    {now : DateTime} (hs : s ∈ t) (hwork : task.work cfg env s = (os, .ok c)) :
    r ∈ save now c t ↔ r = c ∨ (r ∈ t ∧ r.id ≠ s.id) :=
  mem_save_of_mem hs (id_of_work hwork)

/-! ## Every event is a run of moves -/

theorem run_single {cfg : Config} {performs : Performs} {t : Table} {m : Move}
    (h : Legit cfg performs t m) :
    Run (moveSystem cfg) (Legit cfg performs) t [m] (m.run cfg t).2 (m.run cfg t).1 :=
  Run.single h rfl

theorem moves_of_submit (storage : Storage Nat) (env : SubmitEnv) (request : HttpRequest) :
    ∃ ms, Run (moveSystem cfg) (Legit cfg performs) t ms
      (submit cfg storage env request 0 t).2.outputs
      (submit cfg storage env request 0 t).2.table := by
  cases hchecks : submitChecks cfg request with
  | error response => exact ⟨[], by simpa [submit, hchecks] using Run.nil t⟩
  | ok valid =>
      cases hcallback : storedCallback cfg valid.lmsCallbackUrl with
      | error e => exact ⟨[], by simpa [submit, hchecks, hcallback] using Run.nil t⟩
      | ok callback =>
          -- one move for the invalidation, a second one if a row is inserted
          have hlegit : Legit cfg performs t (.supersede callback) := Legit.supersede callback
          have hfirst := run_single hlegit
          simp only [submit, hchecks, hcallback]
          rcases storeSubmission_cases cfg storage env request valid callback 0
            (invalidatePriorSubmissions callback t) with
            ⟨htable, hout⟩ | ⟨urlsJson, keysJson, hurls, hid, htable, hout⟩
          · refine ⟨[.supersede callback], ?_⟩
            rw [htable, hout]
            exact hfirst
          · refine ⟨[.supersede callback] ++ [.insert request valid callback urlsJson keysJson env.now],
              ?_⟩
            have hinsert : Legit cfg performs (invalidatePriorSubmissions callback t)
                (.insert request valid callback urlsJson keysJson env.now) :=
              Legit.insert urlsJson keysJson env.now hchecks hcallback hurls hid
            rw [htable, hout]
            exact hfirst.append (run_single hinsert)

/-- The save that `Work.finish` makes is the one move that works on the row. -/
theorem moves_of_finish {task : Task} {env : WorkEnv} (now : DateTime) (hs : s ∈ t)
    (hp : performs task env s) (hfinish : ∀ c, task.finish cfg .timeout now c t = (save now c t, [])) :
    ∃ ms, Run (moveSystem cfg) (Legit cfg performs) t ms
      ((task.work cfg env s).finish now t).outputs ((task.work cfg env s).finish now t).table := by
  refine ⟨[.work task env s .timeout now], ?_⟩
  have hlegit : Legit cfg performs t (.work task env s .timeout now) := Legit.work .timeout now hs hp
  have h := run_single hlegit
  rcases hw : task.work cfg env s with ⟨os, e | c⟩
  · simpa [Move.run, hw, Work.finish] using h
  · simpa [Move.run, hw, Work.finish, hfinish c] using h

theorem moves_of_getSubmission (env : PullEnv) (request : HttpRequest) :
    ∃ ms, Run (moveSystem cfg) (Legit cfg ((Event.getSubmission env request).Performs cfg t)) t ms
      (getSubmission cfg env request t).outputs (getSubmission cfg env request t).table := by
  cases hchecks : getSubmissionChecks cfg request with
  | error response => exact ⟨[], by simpa [getSubmission, hchecks] using Run.nil t⟩
  | ok queueName =>
      cases hget : getSingleUnretiredSubmission cfg env.plan env.queryTime queueName t with
      | none => exact ⟨[], by simpa [getSubmission, hchecks, hget] using Run.nil t⟩
      | some s =>
          let workEnv : WorkEnv := ⟨env.pullTime, env.pullTime, .timeout, fun _ => .timeout⟩
          refine ⟨[.work (.pull request) workEnv s env.fetch env.pullTime], ?_⟩
          have hlegit : Legit cfg ((Event.getSubmission env request).Performs cfg t) t
              (.work (.pull request) workEnv s env.fetch env.pullTime) :=
            Legit.work env.fetch env.pullTime (mem_of_getSingleSubmission hget)
              ⟨rfl, rfl, queueName, hchecks, hget⟩
          have h := run_single hlegit
          simpa [getSubmission, hchecks, hget, pull_eq_ok, Move.run, Task.work, Task.finish] using h

theorem moves_of_putResult (env : WorkEnv) (request : HttpRequest) :
    ∃ ms, Run (moveSystem cfg) (Legit cfg ((Event.putResult env request).Performs cfg t)) t ms
      (putResult cfg env request t).outputs (putResult cfg env request t).table := by
  cases hchecks : putResultChecks request t with
  | error response => exact ⟨[], by simpa [putResult, hchecks] using Run.nil t⟩
  | ok pair =>
      rcases pair with ⟨s, graderReply⟩
      rcases putResultChecks_eq_ok.1 hchecks with ⟨-, -, hs, -⟩
      have hp : (Event.putResult env request).Performs cfg t (.put request graderReply) env s :=
        ⟨rfl, graderReply, rfl, hchecks⟩
      rcases moves_of_finish env.now hs hp (fun _ => rfl) with ⟨ms, h⟩
      exact ⟨ms, by simpa [putResult, hchecks, Task.work] using h⟩

theorem moves_of_deliverSubmission (env : PushEnv) (worker : Worker) :
    ∃ ms, Run (moveSystem cfg) (Legit cfg ((Event.deliverSubmission env worker).Performs cfg t)) t ms
      (worker.deliverSubmission cfg env t).outputs (worker.deliverSubmission cfg env t).table := by
  cases hget : getSingleUnpushedSubmission cfg env.plan env.queryTime worker.queueName t with
  | none => exact ⟨[], by simpa [Worker.deliverSubmission, hget] using Run.nil t⟩
  | some s =>
      have hp : (Event.deliverSubmission env worker).Performs cfg t (.push worker) env.toWorkEnv s :=
        ⟨rfl, rfl, hget⟩
      rcases moves_of_finish env.returnTime (mem_of_getSingleSubmission hget) hp (fun _ => rfl)
        with ⟨ms, h⟩
      exact ⟨ms, by simpa [Worker.deliverSubmission, hget, Task.work] using h⟩

/-- The loop of a command works on rows that are still stored when their turn comes. -/
theorem moves_of_saveEach {task : Task} {workEnv : Submission → WorkEnv} (now : DateTime)
    (hfinish : ∀ c t, task.finish cfg .timeout now c t = (save now c t, [])) :
    ∀ {rows : List Submission} {t : Table}, (∀ s ∈ rows, s ∈ t) → (rows.map Submission.id).Nodup →
      (∀ s ∈ rows, performs task (workEnv s) s) →
        ∃ ms, Run (moveSystem cfg) (Legit cfg performs) t ms
          (saveEach (fun s => task.work cfg (workEnv s) s) now rows t).outputs
          (saveEach (fun s => task.work cfg (workEnv s) s) now rows t).table := by
  intro rows
  induction rows with
  | nil =>
      intro t _ _ _
      exact ⟨[], Run.nil t⟩
  | cons s rows ih =>
      intro t hmem hnodup hp
      rcases List.nodup_cons.1 hnodup with ⟨hnotin, hnodup⟩
      rcases moves_of_finish now (t := t) (hmem s (by simp)) (hp s (by simp)) (fun c => hfinish c t)
        with ⟨ms, hrun⟩
      rcases hw : task.work cfg (workEnv s) s with ⟨os, e | c⟩
      · exact ⟨ms, by simpa [saveEach, hw, Work.finish] using hrun⟩
      · -- the save leaves the rows still to come in place
        have hrest : ∀ r ∈ rows, r ∈ save now c t := by
          intro r hr
          have hne : r.id ≠ c.id := by
            rw [id_of_work hw]
            exact fun heq => hnotin (heq ▸ List.mem_map_of_mem hr)
          exact mem_save.2 (Or.inr ⟨hmem r (by simp [hr]), hne⟩)
        rcases ih hrest hnodup (fun r hr => hp r (by simp [hr])) with ⟨ms', hrun'⟩
        simp only [hw, Work.finish] at hrun
        exact ⟨ms ++ ms', by simpa [saveEach, hw, Work.finish] using hrun.append hrun'⟩

theorem moves_of_retirePasses {env : CommandEnv} {force : Bool} {allScopes : List (Option PyStr)}
    (hperforms : ∀ pass s, (∃ scope ∈ allScopes, isFailed scope s = true) →
      reachesLimit cfg s = true → performs (.retireFailed force) (env.workEnv pass s) s) :
    ∀ {scopes : List (Option PyStr)} (pass : Nat) {t : Table}, (∀ scope ∈ scopes, scope ∈ allScopes) →
      ∃ ms, Run (moveSystem cfg) (Legit cfg performs) t ms
        (retirePasses cfg env force pass scopes t).outputs
        (retirePasses cfg env force pass scopes t).table := by
  intro scopes
  induction scopes with
  | nil =>
      intro pass t _
      exact ⟨[], Run.nil t⟩
  | cons scope scopes ih =>
      intro pass t hscopes
      have hrows : ∀ s ∈ failedSubmissions cfg (env.plan pass) scope t, s ∈ t :=
        fun s hs => (mem_failedSubmissions.1 hs).1
      have hp : ∀ s ∈ failedSubmissions cfg (env.plan pass) scope t,
          performs (.retireFailed force) (env.workEnv pass s) s := by
        intro s hs
        rcases mem_failedSubmissions.1 hs with ⟨-, hfailed, hlimit⟩
        exact hperforms pass s ⟨scope, hscopes scope (by simp), hfailed⟩ hlimit
      rcases moves_of_saveEach env.now (fun _ _ => rfl) hrows nodup_failedSubmissions hp with ⟨ms, hrun⟩
      rcases ih (pass + 1) (fun scope' h => hscopes scope' (by simp [h])) with ⟨ms', hrun'⟩
      simp only [retirePasses]
      split
      · -- an exception ends the command after this pass
        exact ⟨ms, hrun⟩
      · exact ⟨ms ++ ms', hrun.append hrun'⟩

theorem moves_of_retireOldSubmissions (env : CommandEnv) (queueName : PyStr)
    (retireBefore : Option PyStr) :
    ∃ ms, Run (moveSystem cfg)
      (Legit cfg ((Event.retireOldSubmissions env queueName retireBefore).Performs cfg t)) t ms
      (retireOldSubmissions cfg env queueName retireBefore t).outputs
      (retireOldSubmissions cfg env queueName retireBefore t).table := by
  cases hbound : retireBound cfg retireBefore with
  | error e => exact ⟨[], by simpa [retireOldSubmissions, hbound] using Run.nil t⟩
  | ok bound =>
      have hp : ∀ s ∈ (env.plan 0).order (t.rows.filter (isOldIn queueName bound)),
          (Event.retireOldSubmissions env queueName retireBefore).Performs cfg t .retireOld
            (env.workEnv 0 s) s :=
        fun s hs => ⟨rfl, rfl, bound, hbound, (mem_order_filter.1 hs).2⟩
      rcases moves_of_saveEach env.now (fun _ _ => rfl) (fun s hs => (mem_order_filter.1 hs).1)
        nodup_order hp with ⟨ms, hrun⟩
      exact ⟨ms, by simpa [retireOldSubmissions, hbound, Task.work, CommandEnv.workEnv] using hrun⟩

/-- Every event is a run of moves that the event may make. -/
theorem run_moves (cfg : Config) (t : Table) (e : Event) :
    ∃ ms, Run (moveSystem cfg) (Legit cfg (e.Performs cfg t)) t ms (e.run cfg t).2 (e.run cfg t).1 := by
  cases e with
  | submit storage env request => exact moves_of_submit storage env request
  | getSubmission env request => exact moves_of_getSubmission env request
  | putResult env request => exact moves_of_putResult env request
  | deliverSubmission env worker => exact moves_of_deliverSubmission env worker
  | retireFailedSubmissions env force queueNames =>
      have hperforms : ∀ pass s, (∃ scope ∈ scopesOf queueNames, isFailed scope s = true) →
          reachesLimit cfg s = true → (Event.retireFailedSubmissions env force queueNames).Performs
            cfg t (.retireFailed force) (env.workEnv pass s) s :=
        fun pass s hscope hlimit => ⟨rfl, pass, rfl, hscope, hlimit⟩
      exact moves_of_retirePasses hperforms 0 (fun scope h => h)
  | retireOldSubmissions env queueName retireBefore =>
      exact moves_of_retireOldSubmissions env queueName retireBefore

/-! ## Invariants of runs of events -/

/-- What every move of an event preserves, the event preserves. -/
theorem event_invariant {e : Event} {I : List Output → Table → Prop} (h0 : I [] t)
    (hmove : ∀ os u u' o, I os u → Moved cfg (e.Performs cfg t) u u' o → I (os ++ o) u') :
    I (e.run cfg t).2 (e.run cfg t).1 := by
  rcases run_moves cfg t e with ⟨ms, hrun⟩
  -- by induction over the moves, each of which is legitimate
  refine hrun.invariant h0 ?_
  intro os u m v o hI hlegit hstep
  simp only [moveSystem, Option.some.injEq] at hstep
  have := hmove os u _ _ hI (moved_of_legit hlegit)
  rwa [hstep] at this

/-- What every move preserves, given the event it belongs to, holds after every run. -/
theorem moves_invariant {ok : Table → Event → Prop} {es : List Event} {os : List Output}
    {t₀ t : Table} {I : List Output → Table → Prop} (h : Run (atomicSystem cfg) ok t₀ es os t)
    (h0 : I [] t₀)
    (hmove : ∀ t₁ e, ok t₁ e → ∀ os u u' o, I os u → Moved cfg (e.Performs cfg t₁) u u' o →
      I (os ++ o) u') : I os t := by
  refine h.invariant h0 ?_
  rintro os t₁ e u o hI hok hstep
  simp only [atomicSystem, Option.some.injEq] at hstep
  -- the invariant of the moves of one event starts from the outputs before it
  have hevent : I (os ++ (e.run cfg t₁).2) (e.run cfg t₁).1 := by
    refine event_invariant (I := fun o' u' => I (os ++ o') u') (by simpa using hI) ?_
    intro o' u₁ u₂ o'' hI' hmoved
    have := hmove t₁ e hok _ _ _ _ hI' hmoved
    simpa [List.append_assoc] using this
  rwa [hstep] at hevent

/-- Rows stay stored, with the columns that their submit request has set. -/
theorem origin_of_reachable {u : Table} (h : (atomicSystem cfg).Reachable t u) :
    ∀ r ∈ t, ∃ s ∈ u, s.id = r.id ∧ s.origin = r.origin := by
  rcases h with ⟨es, os, hrun⟩
  refine moves_invariant (I := fun _ u => ∀ r ∈ t, ∃ s ∈ u, s.id = r.id ∧ s.origin = r.origin) hrun
    (fun r hr => ⟨r, hr, rfl, rfl⟩) ?_
  intro t₁ e _ os u₁ u₂ o hI hmoved r hr
  rcases hI r hr with ⟨s, hs, hid, horigin⟩
  cases hmoved with
  | raised => exact ⟨s, hs, hid, horigin⟩
  | undone => exact ⟨s, hs, hid, horigin⟩
  | @saved task env s' c os fetch now hs' _ hwork =>
      by_cases heq : s.id = s'.id
      · -- the row that has been worked on
        rw [KeyedTable.eq_of_key_eq hs hs' heq] at hid horigin
        exact ⟨c, (mem_save_worked hs' hwork).2 (Or.inl rfl), (id_of_work hwork).trans hid,
          (origin_of_work hwork).trans horigin⟩
      · exact ⟨s, (mem_save_worked hs' hwork).2 (Or.inr ⟨hs, heq⟩), hid, horigin⟩
  | superseded callback =>
      refine ⟨_, mem_invalidate.2 ⟨s, hs, rfl⟩, ?_⟩
      split
      · exact ⟨hid, horigin⟩
      · exact ⟨hid, horigin⟩
  | inserted => exact ⟨s, KeyedTable.mem_insert.2 (Or.inl hs), hid, horigin⟩

end Xqueue
