import Xqueue.Commands.RunConsumer
import Xqueue.Deployment

/-!
# WorkerMonitor — one worker for each push queue, for as long as none of them stops

`RunConsumer` has the monitor as a function of exit codes.  Here the workers are objects with an
identity, so that a process that is kept differs from one that is started again:

* `MonitorState.round` : the three loops of `monitor`, in the list they work on;
* `round_eq` : what a round does, with `monitor_of_round` for the function of `RunConsumer`;
* `monitorSystem` : the `while` loop of `handle`, for any exit codes that it reads;
* `supervises_push_queues` : the list after any number of rounds, and the round after it.
-/

namespace Xqueue

open Library

/-- A `Worker` object; two workers of one queue differ in their `pid`. -/
structure Process where
  pid : Nat
  worker : Worker
  deriving DecidableEq, Repr

/-- The list `workers`, and the pid of the next process. -/
structure MonitorState where
  workers : List Process
  nextPid : Nat
  deriving DecidableEq, Repr

inductive MonitorOutput where
  /-- The monitor reads the exit code of a process. -/
  | observed (p : Process) (exitcode : Option Int)
  | started (p : Process)
  deriving DecidableEq, Repr

/-- New processes for the workers. -/
def launch : (pid : Nat) → List Worker → List Process
  | _, [] => []
  | pid, w :: ws => ⟨pid, w⟩ :: launch (pid + 1) ws

/-- The queues with a url, in the order of the settings. -/
def pushWorkers (cfg : Config) : List Worker :=
  cfg.xqueues.filterMap (fun q => q.2.map (fun url => ⟨q.1, url⟩))

/-- The state of `handle` before its loop. -/
def startMonitor (cfg : Config) : MonitorState :=
  ⟨launch 0 (pushWorkers cfg), (pushWorkers cfg).length⟩

/-- `finished_workers` and `failed_workers` -/
def classify (exitcode : Process → Option Int) : List Process → List Process × List Process
  | [] => ([], [])
  | p :: ps =>
      let (finished, failed) := classify exitcode ps
      match exitcode p with
      | none => (finished, failed)
      | some code => if 1 ≤ code then (finished, p :: failed) else (p :: finished, failed)

/-- `workers.remove(worker)`, which raises when the worker is not in the list. -/
def removeWorker (p : Process) (workers : List Process) : Option (List Process) :=
  if p ∈ workers then some (workers.erase p) else none

def removeFinished : (finished workers : List Process) → Option (List Process)
  | [], workers => some workers
  | p :: ps, workers =>
      match removeWorker p workers with
      | none => none
      | some workers => removeFinished ps workers

def restartFailed : List Process → MonitorState → Option (MonitorState × List MonitorOutput)
  | [], st => some (st, [])
  | p :: ps, st =>
      match removeWorker p st.workers with
      | none => none
      | some workers =>
          let newWorker : Process := ⟨st.nextPid, p.worker⟩
          match restartFailed ps ⟨workers ++ [newWorker], st.nextPid + 1⟩ with
          | none => none
          | some (st', os) => some (st', .started newWorker :: os)

/-- `monitor`, with the exit codes that it reads. -/
def MonitorState.round (exitcode : Process → Option Int) (st : MonitorState) :
    Option (MonitorState × List MonitorOutput) :=
  let (finished, failed) := classify exitcode st.workers
  match removeFinished finished st.workers with
  | none => none
  | some workers =>
      match restartFailed failed ⟨workers, st.nextPid⟩ with
      | none => none
      | some (st', os) => some (st', st.workers.map (fun p => .observed p (exitcode p)) ++ os)

/-- `while workers` -/
def MonitorState.step (st : MonitorState) (exitcode : Process → Option Int) :
    Option (MonitorState × List MonitorOutput) :=
  if st.workers = [] then none else st.round exitcode

def monitorSystem : System MonitorState (Process → Option Int) MonitorOutput where
  step := MonitorState.step

variable {cfg : Config} {exitcode : Process → Option Int} {st next : MonitorState} {p : Process}
  {ps workers added : List Process} {w : Worker} {ws : List Worker} {pid : Nat}
  {rounds : List (Process → Option Int)} {os os' : List MonitorOutput} {name url : PyStr}

/-- The process with the exit code that is read. -/
def Process.observe (exitcode : Process → Option Int) (p : Process) : WorkerProcess :=
  ⟨p.worker, exitcode p⟩

def IsRunning (exitcode : Process → Option Int) (p : Process) : Bool :=
  (p.observe exitcode).isRunning

def HasFailed (exitcode : Process → Option Int) (p : Process) : Bool :=
  (p.observe exitcode).hasFailed

/-- The processes that the outputs start. -/
def startedIn (os : List MonitorOutput) : List Process :=
  os.filterMap (fun o => match o with | .started p => some p | .observed _ _ => none)

/-! ## New processes -/

@[simp] theorem map_worker_launch : (launch pid ws).map Process.worker = ws := by
  induction ws generalizing pid with
  | nil => rfl
  | cons w ws ih => simp [launch, ih]

theorem map_pid_launch : (launch pid ws).map Process.pid = List.range' pid ws.length := by
  induction ws generalizing pid with
  | nil => rfl
  | cons w ws ih => simp [launch, ih, List.range'_succ]

theorem pid_of_mem_launch (h : p ∈ launch pid ws) : pid ≤ p.pid ∧ p.pid < pid + ws.length := by
  have hmem : p.pid ∈ (launch pid ws).map Process.pid := List.mem_map_of_mem h
  rwa [map_pid_launch, List.mem_range'_1] at hmem

theorem nodup_pid_launch : ((launch pid ws).map Process.pid).Nodup := by
  rw [map_pid_launch]
  exact List.nodup_range'

theorem exists_mem_launch : (∃ p ∈ launch pid ws, p.worker = w) ↔ w ∈ ws := by
  have hmap : w ∈ (launch pid ws).map Process.worker ↔ w ∈ ws := by rw [map_worker_launch]
  rwa [List.mem_map] at hmap

theorem mem_pushWorkers : w ∈ pushWorkers cfg ↔ (w.queueName, some w.workerUrl) ∈ cfg.xqueues := by
  simp only [pushWorkers, List.mem_filterMap, Option.map_eq_some_iff]
  constructor
  · rintro ⟨⟨name, url⟩, hq, url', rfl, rfl⟩
    exact hq
  · intro h
    exact ⟨(w.queueName, some w.workerUrl), h, w.workerUrl, rfl, rfl⟩

theorem nodup_queueName_pushWorkers (h : (cfg.xqueues.map Prod.fst).Nodup) :
    ((pushWorkers cfg).map Worker.queueName).Nodup := by
  refine h.sublist ?_
  rw [pushWorkers]
  generalize cfg.xqueues = queues
  induction queues with
  | nil => exact List.Sublist.refl []
  | cons q queues ih =>
      rcases q with ⟨name, _ | url⟩
      · exact ih.cons name
      · exact ih.cons_cons name

/-! ## One round -/

theorem classify_eq : classify exitcode workers =
    (workers.filter (fun p => !IsRunning exitcode p && !HasFailed exitcode p),
      workers.filter (HasFailed exitcode)) := by
  induction workers with
  | nil => rfl
  | cons p ps ih =>
      rw [classify, ih]
      cases hcode : exitcode p with
      | none =>
          have hrunning : IsRunning exitcode p = true := by
            simp [IsRunning, Process.observe, WorkerProcess.isRunning, hcode]
          have hfailed : HasFailed exitcode p = false := by
            simp [HasFailed, Process.observe, WorkerProcess.hasFailed, hcode]
          simp [hrunning, hfailed]
      | some code =>
          have hrunning : IsRunning exitcode p = false := by
            simp [IsRunning, Process.observe, WorkerProcess.isRunning, hcode]
          have hfailed : HasFailed exitcode p = decide (1 ≤ code) := by
            simp [HasFailed, Process.observe, WorkerProcess.hasFailed, hcode]
          by_cases h : 1 ≤ code <;> simp [hrunning, hfailed, h]

theorem removeWorker_of_mem (h : p ∈ workers) : removeWorker p workers = some (workers.erase p) :=
  if_pos h

/-- What one removal leaves, for the removals after it. -/
theorem mem_erase_of_tail (hp : p ∉ ps) (hmem : ∀ q ∈ p :: ps, q ∈ workers) :
    ∀ q ∈ ps, q ∈ workers.erase p := by
  intro q hq
  have hne : q ≠ p := fun h => hp (h ▸ hq)
  exact (List.mem_erase_of_ne hne).2 (hmem q (List.mem_cons_of_mem p hq))

theorem filter_erase (hnodup : workers.Nodup) :
    (workers.erase p).filter (fun q => q ∉ ps) = workers.filter (fun q => q ∉ p :: ps) := by
  rw [hnodup.erase_eq_filter, List.filter_filter]
  refine List.filter_congr fun q _ => ?_
  by_cases hq : q = p <;> simp [hq]

/-- Workers of the list that differ are removed one by one. -/
theorem removeFinished_eq (hnodup : workers.Nodup) (hps : ps.Nodup) (hmem : ∀ p ∈ ps, p ∈ workers) :
    removeFinished ps workers = some (workers.filter (fun p => p ∉ ps)) := by
  induction ps generalizing workers with
  | nil => simp [removeFinished]
  | cons p ps ih =>
      rcases List.nodup_cons.1 hps with ⟨hp, hps⟩
      rw [removeFinished, removeWorker_of_mem (hmem p List.mem_cons_self)]
      show removeFinished ps (workers.erase p) = _
      rw [ih (hnodup.erase p) hps (mem_erase_of_tail hp hmem), filter_erase hnodup]

/-- The removals do not reach the workers that are appended meanwhile. -/
theorem restartFailed_eq (hnodup : workers.Nodup) (hps : ps.Nodup) (hmem : ∀ p ∈ ps, p ∈ workers) :
    restartFailed ps ⟨workers ++ added, pid⟩ =
      some (⟨workers.filter (fun p => p ∉ ps) ++ (added ++ launch pid (ps.map Process.worker)),
        pid + ps.length⟩, (launch pid (ps.map Process.worker)).map .started) := by
  induction ps generalizing workers added pid with
  | nil => simp [restartFailed, launch]
  | cons p ps ih =>
      rcases List.nodup_cons.1 hps with ⟨hp, hps⟩
      have hmem' : p ∈ workers := hmem p List.mem_cons_self
      have hremove : removeWorker p (workers ++ added) = some (workers.erase p ++ added) := by
        rw [removeWorker_of_mem (List.mem_append_left _ hmem'), List.erase_append_left _ hmem']
      have hloop : restartFailed ps
          ⟨workers.erase p ++ (added ++ [⟨pid, p.worker⟩]), pid + 1⟩ = _ :=
        ih (hnodup.erase p) hps (mem_erase_of_tail hp hmem)
      rw [filter_erase hnodup] at hloop
      simp only [restartFailed, hremove, List.append_assoc, hloop]
      simp [launch, Nat.add_assoc, Nat.add_comm 1]

/-- The state after a round: running workers stay, failed ones are started again. -/
def roundNext (exitcode : Process → Option Int) (st : MonitorState) : MonitorState :=
  let failed := st.workers.filter (HasFailed exitcode)
  ⟨st.workers.filter (IsRunning exitcode) ++ launch st.nextPid (failed.map Process.worker),
    st.nextPid + failed.length⟩

/-- The processes that a round starts. -/
def roundStarts (exitcode : Process → Option Int) (st : MonitorState) : List Process :=
  launch st.nextPid ((st.workers.filter (HasFailed exitcode)).map Process.worker)

def roundOutputs (exitcode : Process → Option Int) (st : MonitorState) : List MonitorOutput :=
  st.workers.map (fun p => .observed p (exitcode p)) ++ (roundStarts exitcode st).map .started

theorem not_isRunning_and_hasFailed : ¬ (IsRunning exitcode p = true ∧ HasFailed exitcode p = true) := by
  rintro ⟨hrunning, hfailed⟩
  cases hcode : exitcode p <;>
    simp [IsRunning, HasFailed, Process.observe, WorkerProcess.isRunning, WorkerProcess.hasFailed,
      hcode] at hrunning hfailed

/-- The two loops of removals leave the running workers. -/
theorem round_eq (hnodup : st.workers.Nodup) :
    st.round exitcode = some (roundNext exitcode st, roundOutputs exitcode st) := by
  have hfinished : removeFinished
      (st.workers.filter (fun p => !IsRunning exitcode p && !HasFailed exitcode p)) st.workers =
      some (st.workers.filter (fun p => IsRunning exitcode p || HasFailed exitcode p)) := by
    rw [removeFinished_eq hnodup (hnodup.filter _) fun p hp => (List.mem_filter.1 hp).1]
    congr 1
    refine List.filter_congr fun p hp => ?_
    cases hrunning : IsRunning exitcode p <;> cases hfailed : HasFailed exitcode p <;>
      simp [hp, hrunning, hfailed]
  have hleft : (st.workers.filter (fun p => IsRunning exitcode p || HasFailed exitcode p)).filter
      (fun p => p ∉ st.workers.filter (HasFailed exitcode)) =
      st.workers.filter (IsRunning exitcode) := by
    rw [List.filter_filter]
    refine List.filter_congr fun p hp => ?_
    have hne := @not_isRunning_and_hasFailed exitcode p
    cases hrunning : IsRunning exitcode p <;> cases hfailed : HasFailed exitcode p <;>
      simp_all
  have hfailed : ∀ p ∈ st.workers.filter (HasFailed exitcode),
      p ∈ st.workers.filter (fun p => IsRunning exitcode p || HasFailed exitcode p) := by
    intro p hp
    rcases List.mem_filter.1 hp with ⟨hmem, hfailed⟩
    exact List.mem_filter.2 ⟨hmem, by simp [hfailed]⟩
  have hrestart : restartFailed (st.workers.filter (HasFailed exitcode))
      ⟨st.workers.filter (fun p => IsRunning exitcode p || HasFailed exitcode p) ++ [],
        st.nextPid⟩ = _ :=
    restartFailed_eq (hnodup.filter _) (hnodup.filter _) hfailed
  rw [List.append_nil, List.nil_append, hleft] at hrestart
  simp only [MonitorState.round, classify_eq, hfinished, hrestart]
  rfl

/-- Without the identities, a round is `monitor`. -/
theorem monitor_of_round (hnodup : st.workers.Nodup)
    (h : st.round exitcode = some (next, os)) :
    (monitor (st.workers.map (Process.observe exitcode))).map WorkerProcess.worker =
      next.workers.map Process.worker := by
  rw [round_eq hnodup, Option.some.injEq, Prod.mk.injEq] at h
  rw [← h.1, monitor, List.filter_map, List.filter_map]
  simp only [roundNext, List.map_append, List.map_map, map_worker_launch]
  rfl

/-- `worker.start()` for each of them. -/
theorem startWorkers_eq :
    startWorkers cfg = (startMonitor cfg).workers.map (fun p => p.worker.start) := by
  have hpush : startWorkers cfg = (pushWorkers cfg).map Worker.start := by
    rw [startWorkers, pushWorkers, List.map_filterMap]
    refine List.filterMap_congr fun q _ => ?_
    cases q.2 <;> rfl
  calc
    startWorkers cfg
        = (pushWorkers cfg).map Worker.start := hpush
    _ = ((startMonitor cfg).workers.map Process.worker).map Worker.start := by
          rw [startMonitor, map_worker_launch]
    _ = (startMonitor cfg).workers.map (fun p => p.worker.start) := List.map_map

/-! ## The invariant of the loop -/

/-- A worker of the queue has been observed finished, with code zero, or interrupted, with a
negative one. -/
def HasStopped (os : List MonitorOutput) (name : PyStr) : Prop :=
  ∃ p code, .observed p (some code) ∈ os ∧ code < 1 ∧ p.worker.queueName = name

/-- The list after some rounds: its processes differ, and their workers are those of the push
queues that no worker has stopped. -/
structure MonitorInv (cfg : Config) (os : List MonitorOutput) (st : MonitorState) : Prop where
  pids : (st.workers.map Process.pid).Nodup
  below : ∀ p ∈ st.workers, p.pid < st.nextPid
  names : (st.workers.map (fun p => p.worker.queueName)).Nodup
  configured : ∀ p ∈ st.workers, p.worker ∈ pushWorkers cfg
  present : ∀ w ∈ pushWorkers cfg,
    (∃ p ∈ st.workers, p.worker = w) ↔ ¬ HasStopped os w.queueName

theorem MonitorInv.nodup (h : MonitorInv cfg os st) : st.workers.Nodup :=
  h.pids.of_map

theorem monitorInv_start (h : (cfg.xqueues.map Prod.fst).Nodup) :
    MonitorInv cfg [] (startMonitor cfg) where
  pids := nodup_pid_launch
  below := by
    intro p hp
    exact (pid_of_mem_launch hp).2.trans_eq (Nat.zero_add _)
  names := by
    have hnames : (((launch 0 (pushWorkers cfg)).map Process.worker).map Worker.queueName).Nodup := by
      rw [map_worker_launch]
      exact nodup_queueName_pushWorkers h
    rwa [List.map_map] at hnames
  configured := by
    intro p hp
    exact exists_mem_launch.1 ⟨p, hp, rfl⟩
  present := by
    intro w hw
    refine iff_of_true (exists_mem_launch.2 hw) ?_
    rintro ⟨p, code, hmem, -, -⟩
    exact absurd hmem List.not_mem_nil

/-- A worker has a process after the round if it had one that was not observed as stopped. -/
theorem exists_mem_roundNext : (∃ p ∈ (roundNext exitcode st).workers, p.worker = w) ↔
    ∃ p ∈ st.workers, p.worker = w ∧ (IsRunning exitcode p = true ∨ HasFailed exitcode p = true) := by
  have hlaunch := @exists_mem_launch w
    ((st.workers.filter (HasFailed exitcode)).map Process.worker) st.nextPid
  simp only [List.mem_map, List.mem_filter] at hlaunch
  constructor
  · rintro ⟨p, hp, hw⟩
    rcases List.mem_append.1 hp with hp | hp
    · rcases List.mem_filter.1 hp with ⟨hmem, hrunning⟩
      exact ⟨p, hmem, hw, Or.inl hrunning⟩
    · rcases hlaunch.1 ⟨p, hp, hw⟩ with ⟨q, ⟨hmem, hfailed⟩, hqw⟩
      exact ⟨q, hmem, hqw, Or.inr hfailed⟩
  · rintro ⟨p, hmem, hw, hrunning | hfailed⟩
    · exact ⟨p, List.mem_append_left _ (List.mem_filter.2 ⟨hmem, hrunning⟩), hw⟩
    · rcases hlaunch.2 ⟨p, ⟨hmem, hfailed⟩, hw⟩ with ⟨q, hq, hqw⟩
      exact ⟨q, List.mem_append_right _ hq, hqw⟩

theorem exists_stopped_code : (∃ code, exitcode p = some code ∧ code < 1) ↔
    ¬ (IsRunning exitcode p = true ∨ HasFailed exitcode p = true) := by
  cases hcode : exitcode p <;>
    simp [IsRunning, HasFailed, Process.observe, WorkerProcess.isRunning, WorkerProcess.hasFailed,
      hcode]

theorem observed_mem_roundOutputs {code : Option Int} :
    .observed p code ∈ roundOutputs exitcode st ↔ p ∈ st.workers ∧ exitcode p = code := by
  simp only [roundOutputs, List.mem_append, List.mem_map, MonitorOutput.observed.injEq, reduceCtorEq,
    and_false, exists_false, or_false]
  constructor
  · rintro ⟨q, hq, rfl, rfl⟩
    exact ⟨hq, rfl⟩
  · rintro ⟨hp, rfl⟩
    exact ⟨p, hp, rfl, rfl⟩

theorem hasStopped_round : HasStopped (os ++ roundOutputs exitcode st) name ↔ HasStopped os name ∨
    ∃ p ∈ st.workers, p.worker.queueName = name ∧
      ¬ (IsRunning exitcode p = true ∨ HasFailed exitcode p = true) := by
  constructor
  · rintro ⟨p, code, hmem, hcode, hname⟩
    rcases List.mem_append.1 hmem with hmem | hmem
    · exact Or.inl ⟨p, code, hmem, hcode, hname⟩
    · rcases observed_mem_roundOutputs.1 hmem with ⟨hp, hobs⟩
      exact Or.inr ⟨p, hp, hname, exists_stopped_code.1 ⟨code, hobs, hcode⟩⟩
  · rintro (⟨p, code, hmem, hcode, hname⟩ | ⟨p, hp, hname, hstopped⟩)
    · exact ⟨p, code, List.mem_append_left _ hmem, hcode, hname⟩
    · rcases exists_stopped_code.2 hstopped with ⟨code, hobs, hcode⟩
      exact ⟨p, code, List.mem_append_right _ (observed_mem_roundOutputs.2 ⟨hp, hobs⟩), hcode, hname⟩

/-- What a round preserves. -/
theorem MonitorInv.round (h : MonitorInv cfg os st) :
    MonitorInv cfg (os ++ roundOutputs exitcode st) (roundNext exitcode st) where
  pids := by
    show ((st.workers.filter (IsRunning exitcode) ++ launch st.nextPid _).map Process.pid).Nodup
    rw [List.map_append, List.nodup_append']
    refine ⟨h.pids.sublist (List.filter_sublist.map _), nodup_pid_launch, ?_⟩
    intro pid hold hnew
    rcases List.mem_map.1 hold with ⟨p, hp, rfl⟩
    rcases List.mem_map.1 hnew with ⟨q, hq, hpid⟩
    have hlt := h.below p (List.mem_filter.1 hp).1
    have hle := (pid_of_mem_launch hq).1
    omega
  below := by
    intro p hp
    show p.pid < st.nextPid + (st.workers.filter (HasFailed exitcode)).length
    rcases List.mem_append.1 hp with hp | hp
    · exact (h.below p (List.mem_filter.1 hp).1).trans_le (Nat.le_add_right _ _)
    · simpa using (pid_of_mem_launch hp).2
  names := by
    show ((st.workers.filter (IsRunning exitcode) ++
      launch st.nextPid ((st.workers.filter (HasFailed exitcode)).map Process.worker)).map
        (Worker.queueName ∘ Process.worker)).Nodup
    rw [List.map_append, ← List.map_map (l := launch _ _), map_worker_launch, List.map_map,
      List.nodup_append']
    refine ⟨h.names.sublist (List.filter_sublist.map _),
      h.names.sublist (List.filter_sublist.map _), ?_⟩
    intro name hold hnew
    rcases List.mem_map.1 hold with ⟨p, hp, rfl⟩
    rcases List.mem_map.1 hnew with ⟨q, hq, hname⟩
    rcases List.mem_filter.1 hp with ⟨hp, hrunning⟩
    rcases List.mem_filter.1 hq with ⟨hq, hfailed⟩
    -- one process for each queue: it would be both running and failed
    have heq : q = p := List.inj_on_of_nodup_map h.names hq hp hname
    exact not_isRunning_and_hasFailed ⟨hrunning, heq ▸ hfailed⟩
  configured := by
    intro p hp
    rcases exists_mem_roundNext.1 ⟨p, hp, rfl⟩ with ⟨q, hq, hw, -⟩
    exact hw ▸ h.configured q hq
  present := by
    intro w hw
    rw [exists_mem_roundNext, hasStopped_round]
    constructor
    · rintro ⟨p, hp, rfl, hleft⟩ (hstopped | ⟨q, hq, hname, hnot⟩)
      · exact (h.present p.worker hw).1 ⟨p, hp, rfl⟩ hstopped
      · have heq : q = p := List.inj_on_of_nodup_map h.names hq hp hname
        exact hnot (heq ▸ hleft)
    · intro hnot
      rcases (h.present w hw).2 fun hstopped => hnot (Or.inl hstopped) with ⟨p, hp, rfl⟩
      refine ⟨p, hp, rfl, ?_⟩
      by_contra hstopped
      exact hnot (Or.inr ⟨p, hp, rfl, hstopped⟩)

theorem step_of_ne_nil (hne : st.workers ≠ []) (hnodup : st.workers.Nodup) :
    monitorSystem.step st exitcode = some (roundNext exitcode st, roundOutputs exitcode st) := by
  show (if st.workers = [] then none else st.round exitcode) = _
  rw [if_neg hne, round_eq hnodup]

theorem monitorInv_of_run {ok : MonitorState → (Process → Option Int) → Prop}
    (hnames : (cfg.xqueues.map Prod.fst).Nodup)
    (hrun : monitorSystem.Run ok (startMonitor cfg) rounds os st) : MonitorInv cfg os st := by
  refine hrun.invariant (monitorInv_start hnames) ?_
  intro os st exitcode next o hinv _ hstep
  by_cases hnil : st.workers = []
  · have hexit : monitorSystem.step st exitcode = none := if_pos hnil
    rw [hexit] at hstep
    cases hstep
  · rw [step_of_ne_nil hnil hinv.nodup, Option.some.injEq, Prod.mk.injEq] at hstep
    rcases hstep with ⟨rfl, rfl⟩
    exact hinv.round

/-! ## Supervision -/

/-- The list of the monitor, for the outputs so far. -/
structure Supervised (cfg : Config) (os : List MonitorOutput) (st : MonitorState) : Prop where
  atMostOne : (st.workers.map (fun p => p.worker.queueName)).Nodup
  present : ∀ name url, (name, some url) ∈ cfg.xqueues →
    ((∃ p ∈ st.workers, p.worker.queueName = name) ↔ ¬ HasStopped os name)
  configured : ∀ p ∈ st.workers, (p.worker.queueName, some p.worker.workerUrl) ∈ cfg.xqueues
  /-- `while workers` ends. -/
  exits : (∀ exitcode, monitorSystem.step st exitcode = none) ↔
    ∀ name url, (name, some url) ∈ cfg.xqueues → HasStopped os name

/-- A round reads each exit code once, keeps the running workers and starts one new process for
each failed worker. -/
structure RoundKeeps (exitcode : Process → Option Int) (st next : MonitorState)
    (os : List MonitorOutput) : Prop where
  observes : ∀ p code, .observed p code ∈ os ↔ p ∈ st.workers ∧ exitcode p = code
  keeps : ∀ p ∈ st.workers, exitcode p = none → p ∈ next.workers
  starts : (startedIn os).map Process.worker =
    (st.workers.filter (fun p => ∃ code ∈ exitcode p, 1 ≤ code)).map Process.worker
  fresh : ∀ p ∈ startedIn os, ∀ q ∈ st.workers, p.pid ≠ q.pid
  differ : (next.workers.map Process.pid).Nodup
  /-- Every process of the next list is a running one or a new one. -/
  members : ∀ p, p ∈ next.workers ↔ (p ∈ st.workers ∧ exitcode p = none) ∨ p ∈ startedIn os

theorem isRunning_iff : IsRunning exitcode p = true ↔ exitcode p = none := by
  exact decide_eq_true_iff

theorem hasFailed_iff : HasFailed exitcode p = true ↔ ∃ code ∈ exitcode p, 1 ≤ code := by
  cases hcode : exitcode p <;>
    simp [HasFailed, Process.observe, WorkerProcess.hasFailed, hcode]

theorem startedIn_roundOutputs : startedIn (roundOutputs exitcode st) = roundStarts exitcode st := by
  have hobserved : (st.workers.map fun p => MonitorOutput.observed p (exitcode p)).filterMap
      (fun o => match o with | .started p => some p | .observed _ _ => none) = [] := by
    rw [List.filterMap_map]
    exact List.filterMap_eq_nil_iff.2 fun _ _ => rfl
  have hstarted : ((roundStarts exitcode st).map MonitorOutput.started).filterMap
      (fun o => match o with | .started p => some p | .observed _ _ => none) =
      roundStarts exitcode st := by
    rw [List.filterMap_map]
    exact List.filterMap_some
  calc
    startedIn (roundOutputs exitcode st)
        = (st.workers.map fun p => MonitorOutput.observed p (exitcode p)).filterMap _ ++
            ((roundStarts exitcode st).map MonitorOutput.started).filterMap _ :=
          List.filterMap_append
    _ = [] ++ roundStarts exitcode st := by rw [hobserved, hstarted]
    _ = roundStarts exitcode st := List.nil_append _

theorem roundKeeps_round (h : MonitorInv cfg os st) :
    RoundKeeps exitcode st (roundNext exitcode st) (roundOutputs exitcode st) where
  observes := fun _ _ => observed_mem_roundOutputs
  keeps := by
    intro p hp hnone
    exact List.mem_append_left _ (List.mem_filter.2 ⟨hp, isRunning_iff.2 hnone⟩)
  starts := by
    rw [startedIn_roundOutputs, roundStarts, map_worker_launch]
    congr 1
    refine List.filter_congr fun p _ => ?_
    exact Bool.eq_iff_iff.2 (hasFailed_iff.trans (decide_eq_true_iff).symm)
  fresh := by
    intro p hp q hq hpid
    rw [startedIn_roundOutputs] at hp
    have hle := (pid_of_mem_launch hp).1
    have hlt := h.below q hq
    omega
  differ := h.round.pids
  members := by
    intro p
    rw [startedIn_roundOutputs, ← isRunning_iff, ← List.mem_filter]
    exact List.mem_append

theorem supervised_of_inv (h : MonitorInv cfg os st) (hnames : (cfg.xqueues.map Prod.fst).Nodup) :
    Supervised cfg os st where
  atMostOne := h.names
  present := by
    intro name url hq
    have hw : (⟨name, url⟩ : Worker) ∈ pushWorkers cfg := mem_pushWorkers.2 hq
    rw [← h.present _ hw]
    constructor
    · rintro ⟨p, hp, rfl⟩
      exact ⟨p, hp, List.inj_on_of_nodup_map (nodup_queueName_pushWorkers hnames)
        (h.configured p hp) hw rfl⟩
    · rintro ⟨p, hp, hpw⟩
      exact ⟨p, hp, congrArg Worker.queueName hpw⟩
  configured := fun p hp => mem_pushWorkers.1 (h.configured p hp)
  exits := by
    constructor
    · intro hexit name url hq
      by_contra hnot
      rcases (h.present ⟨name, url⟩ (mem_pushWorkers.2 hq)).2 hnot with ⟨p, hp, -⟩
      have hstep := hexit fun _ => none
      rw [step_of_ne_nil (List.ne_nil_of_mem hp) h.nodup] at hstep
      cases hstep
    · intro hall exitcode
      refine if_pos (List.eq_nil_iff_forall_not_mem.2 fun p hp => ?_)
      have hw := h.configured p hp
      exact (h.present p.worker hw).1 ⟨p, hp, rfl⟩ (hall _ _ (mem_pushWorkers.1 hw))

/-- The monitor of the push queues.

For all settings with distinct queue names and any exit codes read in any number of rounds, the
list holds one worker, with the url of its queue, for each push queue whose worker was never
observed finished or interrupted.  The next round succeeds as long as the list is not empty. -/
theorem supervises_push_queues (cfg : Config) (rounds : List (Process → Option Int))
    (os : List MonitorOutput) (st : MonitorState) (hnames : (cfg.xqueues.map Prod.fst).Nodup)
    (hrun : monitorSystem.Run System.Free (startMonitor cfg) rounds os st) :
    Supervised cfg os st ∧ ∀ exitcode, st.workers ≠ [] → ∃ next os',
      monitorSystem.step st exitcode = some (next, os') ∧ RoundKeeps exitcode st next os' := by
  have hinv := monitorInv_of_run hnames hrun
  refine ⟨supervised_of_inv hinv hnames, ?_⟩
  intro exitcode hne
  exact ⟨roundNext exitcode st, roundOutputs exitcode st, step_of_ne_nil hne hinv.nodup,
    roundKeeps_round hinv⟩

/-! ## A run of two rounds -/

def pairSettings : Config :=
  { devSettings with xqueues := [(py "first", some (py "/first")), (py "pull", none),
      (py "second", some (py "/second"))] }

/-- The first worker fails; then it fails again, while the second one is interrupted. -/
def failedTwice : List (Process → Option Int) :=
  [fun p => if p.pid = 0 then some 1 else none,
    fun p => if p.worker.queueName = py "first" then some 1 else some (-15)]

theorem failedTwice_runs : (monitorSystem.exec (startMonitor pairSettings) failedTwice).isSome := by
  decide

theorem supervises_push_queues_failedTwice :
    let run := (monitorSystem.exec (startMonitor pairSettings) failedTwice).get failedTwice_runs
    (Supervised pairSettings run.2 run.1 ∧ ∀ exitcode, run.1.workers ≠ [] → ∃ next os',
      monitorSystem.step run.1 exitcode = some (next, os') ∧ RoundKeeps exitcode run.1 next os') ∧
      run.1.workers = [⟨3, ⟨py "first", py "/first"⟩⟩] :=
  ⟨supervises_push_queues _ _ _ _ (by decide) (System.run_get failedTwice_runs), by decide⟩

end Xqueue
