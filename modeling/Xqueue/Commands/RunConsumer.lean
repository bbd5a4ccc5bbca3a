import Xqueue.Consumer
import Xqueue.Library.Transition

/-!
# RunConsumer — worker processes and their monitor

This file embeds `run_consumer.py`:

* `startWorkers` : `handle` starts one process for each push queue;
* `monitor` : finished processes are dropped, and failed ones are replaced;
* `consumerSystem` : rounds of the running processes, and the monitor between them.

A process ends with exit code 1 when an exception escapes from its round.
-/

namespace Xqueue

open Library

/-- A process of a worker, which runs as long as it has no exit code. -/
structure WorkerProcess where
  worker : Worker
  exitcode : Option Int
  deriving DecidableEq, Repr

/-- `worker.start()` -/
def Worker.start (worker : Worker) : WorkerProcess :=
  ⟨worker, none⟩

/-- The processes that `handle` starts. -/
def startWorkers (cfg : Config) : List WorkerProcess :=
  cfg.xqueues.filterMap (fun q => q.2.map (fun url => Worker.start ⟨q.1, url⟩))

def WorkerProcess.isRunning (p : WorkerProcess) : Bool :=
  p.exitcode = none

def WorkerProcess.hasFailed (p : WorkerProcess) : Bool :=
  match p.exitcode with
  | none => false
  | some exitcode => 1 ≤ exitcode

/-- `monitor`; a new process goes to the end of the list. -/
def monitor (workers : List WorkerProcess) : List WorkerProcess :=
  workers.filter WorkerProcess.isRunning ++
    (workers.filter WorkerProcess.hasFailed).map (fun p => p.worker.start)

/-- The process after a round with the given result. -/
def WorkerProcess.after (p : WorkerProcess) : Except PyExc Unit → WorkerProcess
  | .ok () => p
  | .error _ => { p with exitcode := some 1 }

/-- The database and the list of workers. -/
structure ConsumerState where
  table : Table
  workers : List WorkerProcess

inductive ConsumerAct where
  /-- A round of the loop in the process at the index. -/
  | round (index : Nat) (env : PushEnv)
  | monitor

def ConsumerState.step (cfg : Config) (st : ConsumerState) :
    ConsumerAct → Option (ConsumerState × List Output)
  | .round index env =>
      match st.workers[index]? with
      | none => none
      | some p =>
          if p.isRunning then
            let ended := p.worker.deliverSubmission cfg env st.table
            some (⟨ended.table, st.workers.set index (p.after ended.result)⟩, ended.outputs)
          else none
  | .monitor => some (⟨st.table, Xqueue.monitor st.workers⟩, [])

def consumerSystem (cfg : Config) : System ConsumerState ConsumerAct Output where
  step := ConsumerState.step cfg

end Xqueue
