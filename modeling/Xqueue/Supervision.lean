import Xqueue.Deployment
import Xqueue.PushQueue
import Xqueue.WorkerMonitor

/-!
# Supervision — the push workers, their monitor and the rest of the service

The processes of `run_consumer`, on the table that the views and the commands work on as well, one
operation after another.  A process ends when an exception escapes from its round, or by a signal.

* `Service`, `serviceSystem` : the table, the list of the monitor and the exit codes;
* `ServiceStep` : all that a step can do;
* `ServiceInv` : what every step keeps of the processes;
* `QueueKept` : what the operations that do not serve a push queue leave of its rows;
* `pushes_accounted` : a row is posted to its grader once for each process that ends on the way, and
  once more if a round has saved it.
-/

namespace Xqueue

open Library
open Library.System

/-! ## The service -/

structure Service where
  table : Table
  monitor : MonitorState
  /-- By pid; a process runs as long as it has none. -/
  exitcode : Nat → Option Int

/-- The workers are started on a table. -/
def startService (cfg : Config) (t : Table) : Service :=
  ⟨t, startMonitor cfg, fun _ => none⟩

def Service.IsAlive (st : Service) (p : Process) : Prop :=
  p ∈ st.monitor.workers ∧ st.exitcode p.pid = none

instance (st : Service) (p : Process) : Decidable (st.IsAlive p) :=
  inferInstanceAs (Decidable (_ ∧ _))

inductive ServiceEvent where
  /-- `_deliver_submission`, in the loop of the process. -/
  | round (p : Process) (env : PushEnv)
  /-- A signal ends the process, when a round has made some of its calls and has not saved. -/
  | interrupt (p : Process) (signal : Nat) (env : PushEnv) (made : Nat)
  | monitor
  /-- An operation of another process. -/
  | other (e : Event)

inductive ServiceOutput where
  | round (p : Process) (outputs : List Output) (result : Except PyExc Unit)
  | interrupted (p : Process) (outputs : List Output)
  | monitor (o : MonitorOutput)
  | other (o : Output)

def Event.isDelivery : Event → Bool
  | .deliverSubmission _ _ => true
  | _ => false

/-- The exit code of a process with an exception is 1, that of a signal is its negative.

A round is one step, from the query to the save, and so is an operation of another process: this is
the service as long as no two operations overlap. -/
def Service.step (cfg : Config) (st : Service) :
    ServiceEvent → Option (Service × List ServiceOutput)
  | .round p env =>
      if st.IsAlive p then
        let ended := p.worker.deliverSubmission cfg env st.table
        match ended.result with
        | .ok () => some ({ st with table := ended.table }, [.round p ended.outputs ended.result])
        | .error _ =>
            some ({ st with
                table := ended.table, exitcode := Function.update st.exitcode p.pid (some 1) },
              [.round p ended.outputs ended.result])
      else none
  | .interrupt p signal env made =>
      if st.IsAlive p ∧ 0 < signal then
        let ended := p.worker.deliverSubmission cfg env st.table
        some ({ st with exitcode := Function.update st.exitcode p.pid (some (-signal)) },
          [.interrupted p (ended.outputs.take made)])
      else none
  | .monitor =>
      match monitorSystem.step st.monitor (fun p => st.exitcode p.pid) with
      | none => none
      | some (next, os) => some ({ st with monitor := next }, os.map .monitor)
  | .other e =>
      -- a worker of this service is no other process
      if e.isDelivery then none
      else
        let (table, outputs) := e.run cfg st.table
        some ({ st with table := table }, outputs.map .other)

def serviceSystem (cfg : Config) : System Service ServiceEvent ServiceOutput where
  step := Service.step cfg

variable {cfg : Config} {st st' : Service} {p q : Process} {w : Worker} {env : PushEnv} {t u v : Table}
  {queueName : PyStr} {e : Event} {es : List ServiceEvent} {os o : List Output}
  {ps : List ServiceOutput}

/-! ## Steps -/

/-- Everything that a step can do. -/
inductive ServiceStep (cfg : Config) (st : Service) :
    ServiceEvent → Service → List ServiceOutput → Prop
  | finished {p : Process} {env : PushEnv} {table : Table} {outputs : List Output} : st.IsAlive p →
      p.worker.deliverSubmission cfg env st.table = ⟨table, outputs, .ok ()⟩ →
        ServiceStep cfg st (.round p env) { st with table := table } [.round p outputs (.ok ())]
  /-- Nothing is saved. -/
  | crashed {p : Process} {env : PushEnv} {outputs : List Output} {exc : PyExc} : st.IsAlive p →
      p.worker.deliverSubmission cfg env st.table = ⟨st.table, outputs, .error exc⟩ →
        ServiceStep cfg st (.round p env)
          { st with exitcode := Function.update st.exitcode p.pid (some 1) }
          [.round p outputs (.error exc)]
  | interrupted {p : Process} {signal : Nat} {env : PushEnv} {made : Nat} : st.IsAlive p →
      0 < signal →
        ServiceStep cfg st (.interrupt p signal env made)
          { st with exitcode := Function.update st.exitcode p.pid (some (-signal)) }
          [.interrupted p ((p.worker.deliverSubmission cfg env st.table).outputs.take made)]
  | monitored {next : MonitorState} {os : List MonitorOutput} :
      monitorSystem.step st.monitor (fun p => st.exitcode p.pid) = some (next, os) →
        ServiceStep cfg st .monitor { st with monitor := next } (os.map .monitor)
  | other {e : Event} : e.isDelivery = false →
      ServiceStep cfg st (.other e) { st with table := (e.run cfg st.table).1 }
        ((e.run cfg st.table).2.map .other)

theorem serviceStep_of_step {e : ServiceEvent}
    (h : (serviceSystem cfg).step st e = some (st', ps)) : ServiceStep cfg st e st' ps := by
  cases e with
  | round p env =>
      simp only [serviceSystem, Service.step] at h
      split at h
      · rename_i halive
        have hcases := pushed_deliverSubmission cfg env p.worker st.table
        generalize hended : p.worker.deliverSubmission cfg env st.table = ended at hcases h
        cases hcases with
        | idle =>
            cases h
            exact ServiceStep.finished halive hended
        | raised =>
            cases h
            exact ServiceStep.crashed halive hended
        | saved =>
            cases h
            exact ServiceStep.finished halive hended
      · cases h
  | interrupt p signal env made =>
      simp only [serviceSystem, Service.step] at h
      split at h
      · rename_i halive
        cases h
        exact ServiceStep.interrupted halive.1 halive.2
      · cases h
  | monitor =>
      simp only [serviceSystem, Service.step] at h
      split at h
      · cases h
      · rename_i next os hmonitor
        cases h
        exact ServiceStep.monitored hmonitor
  | other e =>
      simp only [serviceSystem, Service.step] at h
      split at h
      · cases h
      · rename_i hdelivery
        cases h
        exact ServiceStep.other (Bool.not_eq_true _ ▸ hdelivery)

/-- A step is an event of the table, or leaves it. -/
theorem table_of_serviceStep {e : ServiceEvent} (h : ServiceStep cfg st e st' ps) :
    st'.table = st.table ∨ ∃ event : Event, st'.table = (event.run cfg st.table).1 := by
  cases h with
  | @finished p env table outputs halive hended =>
      refine Or.inr ⟨.deliverSubmission env p.worker, ?_⟩
      show table = (p.worker.deliverSubmission cfg env st.table).table
      rw [hended]
  | @other e hdelivery => exact Or.inr ⟨e, rfl⟩
  | _ => exact Or.inl rfl

/-! ## The processes -/

structure ServiceInv (cfg : Config) (st : Service) : Prop where
  reachable : (atomicSystem cfg).Reachable KeyedTable.empty st.table
  monitor : ∃ os, MonitorInv cfg os st.monitor
  fresh : ∀ pid, st.monitor.nextPid ≤ pid → st.exitcode pid = none

theorem serviceInv_start (hnames : (cfg.xqueues.map Prod.fst).Nodup)
    (ht : (atomicSystem cfg).Reachable KeyedTable.empty t) : ServiceInv cfg (startService cfg t) where
  reachable := ht
  monitor := ⟨[], monitorInv_start hnames⟩
  fresh := fun _ _ => rfl

theorem ServiceInv.nodup_pid (h : ServiceInv cfg st) : (st.monitor.workers.map Process.pid).Nodup := by
  rcases h.monitor with ⟨os, hmonitor⟩
  exact hmonitor.pids

theorem ServiceInv.below (h : ServiceInv cfg st) (hp : p ∈ st.monitor.workers) :
    p.pid < st.monitor.nextPid := by
  rcases h.monitor with ⟨os, hmonitor⟩
  exact hmonitor.below p hp

/-- The round of the monitor is the one of `roundNext`. -/
theorem ServiceInv.monitored (h : ServiceInv cfg st) {exitcode : Process → Option Int}
    {next : MonitorState} {os : List MonitorOutput}
    (hstep : monitorSystem.step st.monitor exitcode = some (next, os)) :
    next = roundNext exitcode st.monitor ∧ RoundKeeps exitcode st.monitor next os ∧
      ∃ os', MonitorInv cfg os' next := by
  rcases h.monitor with ⟨before, hmonitor⟩
  have hne : st.monitor.workers ≠ [] := by
    intro hnil
    have hexit : monitorSystem.step st.monitor exitcode = none := if_pos hnil
    rw [hexit] at hstep
    cases hstep
  rw [step_of_ne_nil hne hmonitor.nodup] at hstep
  cases hstep
  exact ⟨rfl, roundKeeps_round hmonitor, _, hmonitor.round⟩

/-- What a step of the service preserves. -/
theorem ServiceInv.step {e : ServiceEvent} (h : ServiceInv cfg st) (hstep : ServiceStep cfg st e st' ps) :
    ServiceInv cfg st' := by
  have hreachable : (atomicSystem cfg).Reachable KeyedTable.empty st'.table := by
    rcases table_of_serviceStep hstep with htable | ⟨event, htable⟩
    · rw [htable]
      exact h.reachable
    · rw [htable]
      exact reachable_run event h.reachable
  have hended : ∀ {p : Process} {code : Option Int}, st.IsAlive p → ∀ pid, st.monitor.nextPid ≤ pid →
      Function.update st.exitcode p.pid code pid = none := by
    intro p code halive pid hpid
    have hne : pid ≠ p.pid := Nat.ne_of_gt ((h.below halive.1).trans_le hpid)
    rw [Function.update_of_ne hne]
    exact h.fresh pid hpid
  cases hstep with
  | finished => exact ⟨hreachable, h.monitor, h.fresh⟩
  | crashed halive => exact ⟨hreachable, h.monitor, hended halive⟩
  | interrupted halive => exact ⟨hreachable, h.monitor, hended halive⟩
  | @monitored next os hmonitor =>
      rcases h.monitored hmonitor with ⟨rfl, -, hnext⟩
      refine ⟨hreachable, hnext, ?_⟩
      intro pid hpid
      exact h.fresh pid ((Nat.le_add_right _ _).trans hpid)
  | other => exact ⟨hreachable, h.monitor, h.fresh⟩

/-- A process runs on, unless a round or a signal ends it. -/
theorem ServiceInv.alive_step {e : ServiceEvent} (h : ServiceInv cfg st) (halive : st.IsAlive p)
    (hstep : ServiceStep cfg st e st' ps) (hround : ∀ env, e ≠ .round p env)
    (hinterrupt : ∀ signal env made, e ≠ .interrupt p signal env made) : st'.IsAlive p := by
  have hother : ∀ {q : Process} {code : Option Int}, st.IsAlive q → q ≠ p →
      Function.update st.exitcode q.pid code p.pid = none := by
    intro q code hq hne
    have hpid : p.pid ≠ q.pid := fun heq =>
      hne (List.inj_on_of_nodup_map h.nodup_pid hq.1 halive.1 heq.symm)
    rw [Function.update_of_ne hpid]
    exact halive.2
  cases hstep with
  | finished => exact halive
  | @crashed q env outputs exc hq =>
      exact ⟨halive.1, hother hq fun heq => hround env (by rw [heq])⟩
  | @interrupted q signal env made hq =>
      exact ⟨halive.1, hother hq fun heq => hinterrupt signal env made (by rw [heq])⟩
  | @monitored next os hmonitor =>
      rcases h.monitored hmonitor with ⟨-, hkeeps, -⟩
      exact ⟨hkeeps.keeps p halive.1 halive.2, halive.2⟩
  | other => exact halive

/-- The worker has a process in the list, which no signal has ended. -/
def Service.Supervises (st : Service) (w : Worker) : Prop :=
  ∃ p ∈ st.monitor.workers, p.worker = w ∧ ∀ code, st.exitcode p.pid = some code → 1 ≤ code

theorem supervises_start (hw : w ∈ pushWorkers cfg) : (startService cfg t).Supervises w := by
  rcases exists_mem_launch.2 hw with ⟨p, hp, hpw⟩
  exact ⟨p, hp, hpw, fun code hcode => by cases hcode⟩

/-- After its round the monitor has a running process for each worker that it supervises. -/
theorem ServiceInv.alive_of_monitored (h : ServiceInv cfg st) (hsup : st.Supervises w)
    {next : MonitorState} {os : List MonitorOutput}
    (hstep : monitorSystem.step st.monitor (fun p => st.exitcode p.pid) = some (next, os)) :
    ∃ p, ({ st with monitor := next } : Service).IsAlive p ∧ p.worker = w := by
  rcases h.monitored hstep with ⟨rfl, -, -⟩
  rcases hsup with ⟨p, hp, rfl, hcode⟩
  have hleft : IsRunning (fun p => st.exitcode p.pid) p = true ∨
      HasFailed (fun p => st.exitcode p.pid) p = true := by
    rw [isRunning_iff, hasFailed_iff]
    cases hexit : st.exitcode p.pid with
    | none => exact Or.inl rfl
    | some code => exact Or.inr ⟨code, rfl, hcode code hexit⟩
  rcases exists_mem_roundNext.2 ⟨p, hp, rfl, hleft⟩ with ⟨q, hq, hworker⟩
  refine ⟨q, ⟨hq, ?_⟩, hworker⟩
  rcases List.mem_append.1 hq with hq | hq
  · exact isRunning_iff.1 (List.mem_filter.1 hq).2
  · exact h.fresh q.pid (pid_of_mem_launch hq).1

theorem ServiceInv.supervises_step {e : ServiceEvent} (h : ServiceInv cfg st) (hsup : st.Supervises w)
    (hstep : ServiceStep cfg st e st' ps)
    (hinterrupt : ∀ p signal env made, e = .interrupt p signal env made → p.worker ≠ w) :
    st'.Supervises w := by
  cases hstep with
  | finished => exact hsup
  | @crashed q env outputs exc hq =>
      rcases hsup with ⟨p, hp, hpw, hcode⟩
      refine ⟨p, hp, hpw, ?_⟩
      intro code hexit
      -- the process that ends by an exception has the exit code 1, and is started again
      by_cases hpid : p.pid = q.pid
      · simp only [hpid, Function.update_self, Option.some.injEq] at hexit
        exact hexit.le
      · simp only [Function.update_of_ne hpid] at hexit
        exact hcode code hexit
  | @interrupted q signal env made hq =>
      rcases hsup with ⟨p, hp, hpw, hcode⟩
      have hpid : p.pid ≠ q.pid := by
        intro heq
        have hpq : p = q := List.inj_on_of_nodup_map h.nodup_pid hp hq.1 heq
        exact hinterrupt q signal env made rfl (hpq ▸ hpw)
      refine ⟨p, hp, hpw, ?_⟩
      intro code hexit
      simp only [Function.update_of_ne hpid] at hexit
      exact hcode code hexit
  | @monitored next os hmonitor =>
      rcases h.alive_of_monitored hsup hmonitor with ⟨p, halive, hpw⟩
      refine ⟨p, halive.1, hpw, ?_⟩
      intro code hexit
      rw [halive.2] at hexit
      cases hexit
  | other => exact hsup

/-! ## A queue under the other operations -/

/-- What is left of a row of the queue. -/
structure KeptInQueue (r c : Submission) : Prop where
  id : c.id = r.id
  queueName : c.queueName = r.queueName
  arrivalTime : c.arrivalTime = r.arrivalTime
  pushTime : c.pushTime = r.pushTime
  retired : r.retired = true → c.retired = true

theorem KeptInQueue.refl (r : Submission) : KeptInQueue r r :=
  ⟨rfl, rfl, rfl, rfl, fun h => h⟩

theorem KeptInQueue.trans {r c d : Submission} (h : KeptInQueue r c) (h' : KeptInQueue c d) :
    KeptInQueue r d where
  id := h'.id.trans h.id
  queueName := h'.queueName.trans h.queueName
  arrivalTime := h'.arrivalTime.trans h.arrivalTime
  pushTime := h'.pushTime.trans h.pushTime
  retired := fun hr => h'.retired (h.retired hr)

/-- The rows of the queue are kept, and those that have come in were inserted. -/
structure QueueKept (queueName : PyStr) (os : List Output) (t u : Table) : Prop where
  nextKey : t.nextKey ≤ u.nextKey
  old : ∀ r ∈ t, r.queueName = queueName → ∃ c ∈ u, KeptInQueue r c
  known : ∀ c ∈ u, c.queueName = queueName → (∃ r ∈ t, KeptInQueue r c) ∨
    t.nextKey ≤ c.id ∧ c.pushTime = none ∧
      ∃ request row, .inserted request row ∈ os ∧ row.arrivalTime = c.arrivalTime

theorem QueueKept.refl (queueName : PyStr) (t : Table) : QueueKept queueName [] t t where
  nextKey := Nat.le_refl _
  old := fun r hr _ => ⟨r, hr, KeptInQueue.refl r⟩
  known := fun c hc _ => Or.inl ⟨c, hc, KeptInQueue.refl c⟩

theorem QueueKept.trans (h : QueueKept queueName os t u) (h' : QueueKept queueName o u v) :
    QueueKept queueName (os ++ o) t v where
  nextKey := h.nextKey.trans h'.nextKey
  old := by
    intro r hr hname
    rcases h.old r hr hname with ⟨c, hc, hkept⟩
    rcases h'.old c hc (hkept.queueName.trans hname) with ⟨d, hd, hkept'⟩
    exact ⟨d, hd, hkept.trans hkept'⟩
  known := by
    intro d hd hname
    rcases h'.known d hd hname with ⟨c, hc, hkept'⟩ | ⟨hid, hpush, request, row, hmem, harrival⟩
    · rcases h.known c hc (hkept'.queueName.symm.trans hname) with
        ⟨r, hr, hkept⟩ | ⟨hid, hpush, request, row, hmem, harrival⟩
      · exact Or.inl ⟨r, hr, hkept.trans hkept'⟩
      · refine Or.inr ⟨hid.trans hkept'.id.ge, hkept'.pushTime.trans hpush, request, row,
          List.mem_append_left o hmem, harrival.trans hkept'.arrivalTime.symm⟩
    · exact Or.inr ⟨h.nextKey.trans hid, hpush, request, row, List.mem_append_right os hmem, harrival⟩

/-- Work that is neither a result nor a push, on a row that is not retired. -/
def Task.LeavesRow (task : Task) (s : Submission) : Prop :=
  s.retired = false ∧ ∀ worker, task ≠ .push worker

theorem keptInQueue_of_work {task : Task} {workEnv : WorkEnv} {s c : Submission}
    (hleaves : task.LeavesRow s) (hwork : task.work cfg workEnv s = (os, .ok c)) : KeptInQueue s c := by
  have hretired : s.retired = true → c.retired = true := by
    intro h
    rw [hleaves.1] at h
    cases h
  cases writes_of_work hwork with
  | graded worker => exact absurd rfl (hleaves.2 worker)
  | ungraded worker => exact absurd rfl (hleaves.2 worker)
  | _ => exact ⟨rfl, rfl, rfl, rfl, hretired⟩

theorem queueKept_moved {performs : Performs} (hm : Moved cfg performs u v o)
    (hleaves : ∀ task workEnv s, performs task workEnv s → s ∈ u → s.queueName = queueName →
      task.LeavesRow s) : QueueKept queueName o u v := by
  have hsame : QueueKept queueName o u u :=
    ⟨Nat.le_refl _, fun r hr _ => ⟨r, hr, KeptInQueue.refl r⟩,
      fun c hc _ => Or.inl ⟨c, hc, KeptInQueue.refl c⟩⟩
  cases hm with
  | raised hs hp hwork => exact hsame
  | undone => exact hsame
  | @saved task workEnv s c os fetch now hs hp hwork =>
      have hmem : ∀ r, r ∈ save now c u ↔ r = c ∨ (r ∈ u ∧ r.id ≠ s.id) := fun r =>
        mem_save_worked hs hwork
      have horigin : c.queueName = s.queueName := congrArg Origin.queueName (origin_of_work hwork)
      have hkept : s.queueName = queueName → KeptInQueue s c := fun hname =>
        keptInQueue_of_work (hleaves _ _ _ hp hs hname) hwork
      refine ⟨KeyedTable.le_nextKey_put, ?_, ?_⟩
      · intro r hr hname
        by_cases hid : r.id = s.id
        · cases KeyedTable.eq_of_key_eq hr hs hid
          exact ⟨c, (hmem c).2 (Or.inl rfl), hkept hname⟩
        · exact ⟨r, (hmem r).2 (Or.inr ⟨hr, hid⟩), KeptInQueue.refl r⟩
      · intro d hd hname
        rcases (hmem d).1 hd with rfl | ⟨hd, -⟩
        · exact Or.inl ⟨s, hs, hkept (horigin.symm.trans hname)⟩
        · exact Or.inl ⟨d, hd, KeptInQueue.refl d⟩
  | superseded callback =>
      -- a submit retires rows of any queue, and touches nothing else of them
      have hkept : ∀ r : Submission, KeptInQueue r (if isPrior callback r then r.retire else r) := by
        intro r
        split
        · exact ⟨rfl, rfl, rfl, rfl, fun _ => rfl⟩
        · exact KeptInQueue.refl r
      refine ⟨Nat.le_refl _, ?_, ?_⟩
      · intro r hr _
        exact ⟨_, mem_invalidate.2 ⟨r, hr, rfl⟩, hkept r⟩
      · intro c hc _
        rcases mem_invalidate.1 hc with ⟨r, hr, rfl⟩
        exact Or.inl ⟨r, hr, hkept r⟩
  | @inserted request valid callback s3Urls s3Keys now hchecks hcallback hurls =>
      refine ⟨Nat.le_succ _, ?_, ?_⟩
      · intro r hr _
        exact ⟨r, KeyedTable.mem_insert.2 (Or.inl hr), KeptInQueue.refl r⟩
      · intro c hc _
        rcases KeyedTable.mem_insert.1 hc with hc | rfl
        · exact Or.inl ⟨c, hc, KeptInQueue.refl c⟩
        · exact Or.inr ⟨Nat.le_refl _, rfl, request, _, List.mem_singleton_self _, rfl⟩

/-- The event returns no result for a row of the queue, and does not push one. -/
structure Event.LeavesQueue (t : Table) (queueName : PyStr) (e : Event) : Prop where
  noResult : ∀ env request s graderReply, e = .putResult env request →
    putResultChecks request t = .ok (s, graderReply) → s.queueName ≠ queueName
  noDelivery : ∀ env worker, e = .deliverSubmission env worker → worker.queueName ≠ queueName

theorem leavesRow_of_performs {task : Task} {workEnv : WorkEnv} {s : Submission}
    (h : e.LeavesQueue t queueName) (hp : e.Performs cfg t task workEnv s)
    (hname : s.queueName = queueName) : task.LeavesRow s := by
  rcases performs_cases hp with hretired | ⟨request, graderReply, rfl, rfl, hchecks⟩
  · refine ⟨hretired, ?_⟩
    rintro worker rfl
    -- a push is of the queue of its worker
    cases e with
    | deliverSubmission env worker' =>
        rcases hp with ⟨-, -, hget⟩
        have hqueue := (isAvailable_iff.1 (isAvailable_of_getSingleSubmission hget)).2.1
        exact h.noDelivery env worker' rfl (hqueue.symm.trans hname)
    | submit => exact hp
    | getSubmission => cases hp.1
    | putResult =>
        rcases hp with ⟨-, _, htask, -⟩
        cases htask
    | retireFailedSubmissions => cases hp.1
    | retireOldSubmissions => cases hp.1
  · exact absurd hname (h.noResult _ request s graderReply rfl hchecks)

/-- What the events of the others leave of the queue. -/
theorem queueKept_run (cfg : Config) (h : e.LeavesQueue t queueName) :
    QueueKept queueName (e.run cfg t).2 t (e.run cfg t).1 := by
  refine event_invariant (I := fun os u => QueueKept queueName os t u) (QueueKept.refl queueName t) ?_
  intro os u v o hI hm
  refine hI.trans (queueKept_moved hm ?_)
  intro task workEnv s hp _ hname
  exact leavesRow_of_performs h hp hname

/-- No other process returns a result for a row of the queue. -/
def TakesNoResult (queueName : PyStr) (st : Service) : ServiceEvent → Prop
  | .other (.putResult _ request) => ∀ s graderReply,
      putResultChecks request st.table = .ok (s, graderReply) → s.queueName ≠ queueName
  | _ => True

theorem TakesNoResult.leavesQueue (h : TakesNoResult queueName st (.other e))
    (hdelivery : e.isDelivery = false) : e.LeavesQueue st.table queueName where
  noResult := by
    rintro env request s graderReply rfl hchecks
    exact h s graderReply hchecks
  noDelivery := by
    rintro env worker rfl
    cases hdelivery

/-! ## Accounts -/

/-- A round has posted the row to its grader. -/
def ServiceOutput.posts (id : Nat) : ServiceOutput → Bool
  | .round _ outputs _ => outputs.any (isPushOf id)
  | .interrupted _ outputs => outputs.any (isPushOf id)
  | _ => false

/-- It has, and the process has ended before it could save the row. -/
def ServiceOutput.loses (id : Nat) : ServiceOutput → Bool
  | .round _ outputs (.error _) => outputs.any (isPushOf id)
  | .interrupted _ outputs => outputs.any (isPushOf id)
  | _ => false

/-- The accounts of a queue, for the outputs so far. -/
structure PostsAccounted (queueName : PyStr) (ps : List ServiceOutput) (t : Table) : Prop where
  posts : ∀ r ∈ t, r.queueName = queueName → ps.countP (ServiceOutput.posts r.id) =
    ps.countP (ServiceOutput.loses r.id) + if r.pushTime.isSome then 1 else 0
  retired : ∀ r ∈ t, r.queueName = queueName → r.pushTime.isSome = true → r.retired = true
  unknown : ∀ id, t.nextKey ≤ id → ps.countP (ServiceOutput.posts id) = 0

theorem countP_loses_le (ps : List ServiceOutput) (id : Nat) :
    ps.countP (ServiceOutput.loses id) ≤ ps.countP (ServiceOutput.posts id) := by
  refine List.countP_mono_left fun o _ hloses => ?_
  cases o with
  | round p outputs result =>
      cases result with
      | error exc => exact hloses
      | ok done => cases hloses
  | interrupted p outputs => exact hloses
  | _ => cases hloses

/-- Outputs that are about no round. -/
theorem countP_posts_of_quiet (ps : List ServiceOutput) {o : List ServiceOutput} (id : Nat)
    (h : ∀ x ∈ o, ServiceOutput.posts id x = false) :
    (ps ++ o).countP (ServiceOutput.posts id) = ps.countP (ServiceOutput.posts id) ∧
      (ps ++ o).countP (ServiceOutput.loses id) = ps.countP (ServiceOutput.loses id) := by
  have hposts : o.countP (ServiceOutput.posts id) = 0 :=
    List.countP_eq_zero.2 fun x hx => by simp [h x hx]
  have hloses := countP_loses_le o id
  rw [hposts, Nat.le_zero] at hloses
  simp [List.countP_append, hposts, hloses]

theorem PostsAccounted.quiet {o : List ServiceOutput} (h : PostsAccounted queueName ps t)
    (ho : ∀ x ∈ o, ∀ id, ServiceOutput.posts id x = false) : PostsAccounted queueName (ps ++ o) t where
  posts := by
    intro r hr hname
    rcases countP_posts_of_quiet ps r.id fun x hx => ho x hx r.id with ⟨hposts, hloses⟩
    rw [hposts, hloses]
    exact h.posts r hr hname
  retired := h.retired
  unknown := by
    intro id hid
    rw [(countP_posts_of_quiet ps id fun x hx => ho x hx id).1]
    exact h.unknown id hid

theorem PostsAccounted.kept (h : PostsAccounted queueName ps t) (hkept : QueueKept queueName os t u) :
    PostsAccounted queueName ps u where
  posts := by
    intro c hc hname
    rcases hkept.known c hc hname with ⟨r, hr, hrow⟩ | ⟨hid, hpush, -⟩
    · rw [hrow.id, hrow.pushTime]
      exact h.posts r hr (hrow.queueName.symm.trans hname)
    · have hposts := h.unknown c.id hid
      have hloses := countP_loses_le ps c.id
      rw [hposts, Nat.le_zero] at hloses
      simp [hposts, hloses, hpush]
  retired := by
    intro c hc hname hpush
    rcases hkept.known c hc hname with ⟨r, hr, hrow⟩ | ⟨-, hnone, -⟩
    · rw [hrow.pushTime] at hpush
      exact hrow.retired (h.retired r hr (hrow.queueName.symm.trans hname) hpush)
    · rw [hnone] at hpush
      cases hpush
  unknown := fun id hid => h.unknown id (hkept.nextKey.trans hid)

/-- The one row that a round posts is the one that it has selected. -/
theorem id_of_isPushOf (cfg : Config) {workEnv : WorkEnv} {s : Submission}
    {result : Except PyExc Submission} {id : Nat}
    (hwork : w.work workEnv s = (os, result)) (h : os.any (isPushOf id) = true) : s.id = id := by
  rcases List.any_eq_true.1 h with ⟨x, hx, hpush⟩
  have hwork' : (Task.push w).work cfg workEnv s = (os, result) := hwork
  cases emits_of_work hwork' hx with
  | pushed => exact beq_iff_eq.1 hpush
  | delivered => cases hpush

theorem exists_mem_of_isPushOf {env : PushEnv} {id : Nat}
    (h : (w.deliverSubmission cfg env t).outputs.any (isPushOf id) = true) : ∃ s ∈ t, s.id = id := by
  have hcases := pushed_deliverSubmission cfg env w t
  generalize w.deliverSubmission cfg env t = ended at hcases h
  cases hcases with
  | idle => cases h
  | raised hget hwork => exact ⟨_, mem_of_getSingleSubmission hget, id_of_isPushOf cfg hwork h⟩
  | saved hget hwork => exact ⟨_, mem_of_getSingleSubmission hget, id_of_isPushOf cfg hwork h⟩

/-- A process that ends before the save. -/
theorem PostsAccounted.lost {x : ServiceOutput} (h : PostsAccounted queueName ps t)
    (hlost : ∀ id, ServiceOutput.loses id x = ServiceOutput.posts id x)
    (hmem : ∀ id, ServiceOutput.posts id x = true → ∃ s ∈ t, s.id = id) :
    PostsAccounted queueName (ps ++ [x]) t where
  posts := by
    intro r hr hname
    have hcount := h.posts r hr hname
    simp only [List.countP_append, List.countP_singleton, hlost]
    omega
  retired := h.retired
  unknown := by
    intro id hid
    have hno : ServiceOutput.posts id x = false := by
      by_contra hposts
      rcases hmem id (by simpa using hposts) with ⟨s, hs, rfl⟩
      exact absurd (t.fresh s hs) (Nat.not_lt.2 hid)
    rw [List.countP_append, h.unknown id hid]
    simp [hno]

/-- A round that finds a submission and saves it. -/
theorem PostsAccounted.saved (cfg : Config) {s c : Submission} {env : PushEnv}
    (h : PostsAccounted queueName ps t) (hs : s ∈ t)
    (hretired : s.retired = false) (hwork : w.work env.toWorkEnv s = (os, .ok c)) :
    PostsAccounted queueName (ps ++ [.round p os (.ok ())]) (save env.returnTime c t) := by
  rcases pushed_of_work cfg hwork with ⟨body, graderReply, numFailures, acked, rfl, rfl⟩
  have hid : (s.pushed w env.toWorkEnv graderReply numFailures acked).id = s.id := rfl
  have hposts : ∀ id, ServiceOutput.posts id (.round p [pushOutput w env.toWorkEnv s,
      .delivered (s.deliver env.lms body)] (.ok ())) = (s.id == id) := by
    intro id
    simp [ServiceOutput.posts, isPushOf, pushOutput]
  have hloses : ∀ id, ServiceOutput.loses id (.round p [pushOutput w env.toWorkEnv s,
      .delivered (s.deliver env.lms body)] (.ok ())) = false := fun _ => rfl
  refine ⟨?_, ?_, ?_⟩
  · intro r hr hname
    simp only [List.countP_append, List.countP_singleton, hposts, hloses]
    rcases (mem_save_of_mem hs hid).1 hr with rfl | ⟨hr, hne⟩
    · -- it was not pushed before
      have hnone : s.pushTime.isSome = false := by
        by_contra hpush
        rw [h.retired s hs hname (Bool.not_eq_false _ ▸ hpush)] at hretired
        cases hretired
      have hcount := h.posts s hs hname
      rw [hnone] at hcount
      simpa [hid, Submission.pushed] using hcount
    · have hcount := h.posts r hr hname
      simpa [Ne.symm hne] using hcount
  · intro r hr hname hpush
    rcases (mem_save_of_mem hs hid).1 hr with rfl | ⟨hr, -⟩
    · rfl
    · exact h.retired r hr hname hpush
  · intro id hle
    have hle' : t.nextKey ≤ id := KeyedTable.le_nextKey_put.trans hle
    have hne : s.id ≠ id := Nat.ne_of_lt ((t.fresh s hs).trans_le hle')
    rw [List.countP_append, h.unknown id hle', List.countP_singleton, hposts]
    simp [hne]

theorem PostsAccounted.step {e : ServiceEvent} (h : PostsAccounted queueName ps st.table)
    (hok : TakesNoResult queueName st e) {o : List ServiceOutput}
    (hstep : ServiceStep cfg st e st' o) : PostsAccounted queueName (ps ++ o) st'.table := by
  cases hstep with
  | @finished p env table outputs halive hended =>
      have hcases := pushed_deliverSubmission cfg env p.worker st.table
      rw [hended] at hcases
      cases hcases with
      | idle => exact h.quiet (by simp [ServiceOutput.posts])
      | saved hget hwork =>
          exact h.saved cfg (mem_of_getSingleSubmission hget) (retired_of_getSingleSubmission hget) hwork
  | @crashed p env outputs exc halive hended =>
      -- nothing is saved, so the post of the round is lost
      refine h.lost (fun _ => rfl) ?_
      intro id hposts
      have hany : (p.worker.deliverSubmission cfg env st.table).outputs.any (isPushOf id) = true := by
        rw [hended]
        exact hposts
      exact exists_mem_of_isPushOf hany
  | @interrupted p signal env made halive hsignal =>
      -- some of the calls of the round have been made
      refine h.lost (fun _ => rfl) ?_
      intro id hposts
      rcases List.any_eq_true.1 hposts with ⟨x, hx, hpush⟩
      exact exists_mem_of_isPushOf (List.any_eq_true.2 ⟨x, List.mem_of_mem_take hx, hpush⟩)
  | monitored hmonitor => exact h.quiet (by simp [ServiceOutput.posts])
  | other hdelivery =>
      exact (h.kept (queueKept_run cfg (hok.leavesQueue hdelivery))).quiet (by simp [ServiceOutput.posts])

end Xqueue
