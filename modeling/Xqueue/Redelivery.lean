import Mathlib.Data.Finset.Card
import Xqueue.Library.Liveness
import Xqueue.Supervision

/-!
# Redelivery — no submission of a push queue is forgotten

Workers end by exceptions and are started again, other processes submit, pull and retire between the
rounds, and the calls of a worker get through only now and then.  Still the submission that waits in
a push queue is served.

* `FairService` : an infinite run of the service, in which time passes and nothing is put off for ever;
* `ahead` : the submissions that are served no later than a given one;
* `Approaches`, `approaches_of_step` : what a step makes of a submission that waits;
* `rounds_recur` : the monitor keeps a worker at work;
* `settled_eventually` : every submission that waits is retired in the end.
-/

namespace Xqueue

open Library
open Library.System

/-- The event is a round of the worker. -/
def ServiceEvent.IsRoundOf (w : Worker) : ServiceEvent → Prop
  | .round p _ => p.worker = w
  | _ => False

/-- It is a round whose calls get through. -/
def ServiceEvent.GetsThrough (w : Worker) : ServiceEvent → Prop
  | .round p env => p.worker = w ∧ env.Caught
  | _ => False

/-- An infinite run of the service, seen from a worker. -/
structure FairService (cfg : Config) (w : Worker) (f : ℕ → Service) (act : ℕ → ServiceEvent) : Prop where
  run : InfiniteRun (serviceSystem cfg) f act
  monitored : ∀ n, ∃ m, n ≤ m ∧ act m = .monitor
  /-- A process that runs on comes to its next round. -/
  scheduled : ∀ n p, p.worker = w → (∀ m, n ≤ m → (f m).IsAlive p) →
    ∃ m env, n ≤ m ∧ act m = .round p env
  /-- Of infinitely many rounds, infinitely many get through. -/
  caught : (∀ n, ∃ m, n ≤ m ∧ (act m).IsRoundOf w) → ∀ n, ∃ m, n ≤ m ∧ (act m).GetsThrough w
  notInterrupted : ∀ n p signal env made, act n = .interrupt p signal env made → p.worker ≠ w
  noResult : ∀ n, TakesNoResult w.queueName (f n) (act n)
  /-- A new submission arrives after those in the queue. -/
  later : ∀ n e, act n = .other e → ∀ request row, .inserted request row ∈ (e.run cfg (f n).table).2 →
    ∀ r ∈ (f n).table, r.queueName = w.queueName → r.arrivalTime < row.arrivalTime

variable {cfg : Config} {w : Worker} {st st' : Service} {e : ServiceEvent} {ps : List ServiceOutput}
  {s : Submission} {t u : Table} {queueName : PyStr} {arrivalTime : DateTime} {os : List Output}
  {f : ℕ → Service} {act : ℕ → ServiceEvent} {id : Nat}

/-! ## The queue -/

/-- The ids of the rows that wait in the queue and have arrived by the time. -/
def ahead (queueName : PyStr) (arrivalTime : DateTime) (t : Table) : Finset Nat :=
  (((waiting queueName t).filter (fun r => r.arrivalTime ≤ arrivalTime)).map Submission.id).toFinset

theorem mem_ahead : id ∈ ahead queueName arrivalTime t ↔
    ∃ r ∈ t, isWaiting queueName r = true ∧ r.arrivalTime ≤ arrivalTime ∧ r.id = id := by
  simp only [ahead, List.mem_toFinset, List.mem_map, List.mem_filter, mem_waiting, decide_eq_true_eq,
    and_assoc]

/-- The submission waits, and has not been pushed. -/
def Waits (queueName : PyStr) (s : Submission) (t : Table) : Prop :=
  ∃ r ∈ t, r.id = s.id ∧ isWaiting queueName r = true ∧ r.arrivalTime = s.arrivalTime ∧
    r.pushTime = none

/-- The submission is retired, by another operation or after a push to the grader of the queue. -/
def SettledBy (w : Worker) (id : Nat) (t : Table) : Prop :=
  ∃ r ∈ t, r.id = id ∧ r.retired = true ∧ (r.pushTime = none ∨ r.graderId = w.workerUrl)

/-- What a step makes of a submission that waits. -/
structure Approaches (w : Worker) (s : Submission) (t u : Table) : Prop where
  row : SettledBy w s.id u ∨ Waits w.queueName s u
  ahead : ahead w.queueName s.arrivalTime u ⊆ ahead w.queueName s.arrivalTime t

theorem Approaches.refl (h : Waits w.queueName s t) : Approaches w s t t :=
  ⟨Or.inr h, Finset.Subset.refl _⟩

/-- Nothing overtakes it while others work on the queue. -/
theorem approaches_of_queueKept (h : QueueKept w.queueName os t u) (hwaits : Waits w.queueName s t)
    (hlater : ∀ request row, .inserted request row ∈ os → s.arrivalTime < row.arrivalTime) :
    Approaches w s t u := by
  constructor
  · rcases hwaits with ⟨r, hr, hid, hwaiting, harrival, hpush⟩
    have hname : r.queueName = w.queueName := by
      simp only [isWaiting, Bool.and_eq_true, beq_iff_eq] at hwaiting
      exact hwaiting.1
    rcases h.old r hr hname with ⟨c, hc, hkept⟩
    have hcpush : c.pushTime = none := hkept.pushTime.trans hpush
    cases hretired : c.retired with
    | true => exact Or.inl ⟨c, hc, hkept.id.trans hid, hretired, Or.inl hcpush⟩
    | false =>
        refine Or.inr ⟨c, hc, hkept.id.trans hid, ?_, hkept.arrivalTime.trans harrival, hcpush⟩
        simp [isWaiting, hretired, hkept.queueName, hname]
  · intro id hmem
    rcases mem_ahead.1 hmem with ⟨c, hc, hwaiting, hle, rfl⟩
    have hboth : c.queueName = w.queueName ∧ c.retired = false := by simpa [isWaiting] using hwaiting
    rcases h.known c hc hboth.1 with ⟨r, hr, hkept⟩ | ⟨-, -, request, row, hmem, harrival⟩
    · have hretired : r.retired = false := by
        by_contra hretired
        rw [hkept.retired (Bool.not_eq_false _ ▸ hretired)] at hboth
        cases hboth.2
      refine mem_ahead.2 ⟨r, hr, ?_, hkept.arrivalTime ▸ hle, hkept.id.symm⟩
      simp [isWaiting, hretired, ← hkept.queueName, hboth.1]
    · -- a row that has come in arrives later
      exact absurd (hlater request row hmem) (not_lt.2 (harrival ▸ hle))

/-- A worker of another queue does not insert rows. -/
theorem not_inserted_of_delivery {worker : Worker} {env : PushEnv} {request : HttpRequest}
    {row : Submission} : .inserted request row ∉ (worker.deliverSubmission cfg env t).outputs := by
  have hcases := pushed_deliverSubmission cfg env worker t
  generalize worker.deliverSubmission cfg env t = ended at hcases
  have hnone : ∀ {s : Submission} {os : List Output} {result : Except PyExc Submission},
      worker.work env.toWorkEnv s = (os, result) → .inserted request row ∉ os := by
    intro s os result hwork hmem
    have hwork' : (Task.push worker).work cfg env.toWorkEnv s = (os, result) := hwork
    cases emits_of_work hwork' hmem
  cases hcases with
  | idle => exact List.not_mem_nil
  | raised hget hwork => exact hnone hwork
  | saved hget hwork => exact hnone hwork

/-- A round that saves takes the submission, or one that has arrived no later. -/
theorem approaches_of_saved {r c : Submission} {env : PushEnv} (hwaits : Waits w.queueName s t)
    (hget : getSingleUnpushedSubmission cfg env.plan env.queryTime w.queueName t = some r)
    (hwork : w.work env.toWorkEnv r = (os, .ok c)) :
    Approaches w s t (save env.returnTime c t) ∧
      (Waits w.queueName s (save env.returnTime c t) →
        ahead w.queueName s.arrivalTime (save env.returnTime c t) ⊂
          ahead w.queueName s.arrivalTime t) := by
  rcases pushed_of_work cfg hwork with ⟨body, graderReply, numFailures, acked, -, rfl⟩
  rcases hwaits with ⟨r₀, hr₀, hid₀, hwaiting₀, harrival₀, hpush₀⟩
  have hr : r ∈ t := mem_of_getSingleSubmission hget
  have hwaiting : isWaiting w.queueName r = true :=
    isWaiting_of_isAvailable (isAvailable_of_getSingleSubmission hget)
  have hle : r.arrivalTime ≤ s.arrivalTime := by
    have hav : isAvailable cfg env.queryTime .pushTime w.queueName r₀ = true :=
      (isAvailable_eq_isWaiting hpush₀).trans hwaiting₀
    rw [← harrival₀]
    exact getSingleSubmission_le hget hr₀ hav
  have hsaved : ∀ d, d ∈ save env.returnTime (r.pushed w env.toWorkEnv graderReply numFailures acked) t ↔
      d = r.pushed w env.toWorkEnv graderReply numFailures acked ∨ (d ∈ t ∧ d.id ≠ r.id) :=
    fun d => mem_save_of_mem hr rfl
  -- the row that has been pushed waits no more, and the others are as before
  have hstill : ∀ id, id ∈ ahead w.queueName s.arrivalTime
      (save env.returnTime (r.pushed w env.toWorkEnv graderReply numFailures acked) t) →
        id ∈ ahead w.queueName s.arrivalTime t ∧ id ≠ r.id := by
    intro id hmem
    rcases mem_ahead.1 hmem with ⟨d, hd, hdwaiting, hdle, rfl⟩
    rcases (hsaved d).1 hd with rfl | ⟨hd, hne⟩
    · simp [isWaiting, Submission.pushed] at hdwaiting
    · exact ⟨mem_ahead.2 ⟨d, hd, hdwaiting, hdle, rfl⟩, hne⟩
  refine ⟨⟨?_, fun id hmem => (hstill id hmem).1⟩, fun _ => ?_⟩
  · by_cases hid : r.id = s.id
    · exact Or.inl ⟨_, (hsaved _).2 (Or.inl rfl), hid, rfl, Or.inr rfl⟩
    · refine Or.inr ⟨r₀, (hsaved r₀).2 (Or.inr ⟨hr₀, ?_⟩), hid₀, hwaiting₀, harrival₀, hpush₀⟩
      exact fun heq => hid (heq.symm.trans hid₀)
  · rw [Finset.ssubset_iff_subset_ne]
    refine ⟨fun id hmem => (hstill id hmem).1, fun heq => ?_⟩
    have hmem : r.id ∈ ahead w.queueName s.arrivalTime t := mem_ahead.2 ⟨r, hr, hwaiting, hle, rfl⟩
    rw [← heq] at hmem
    exact (hstill _ hmem).2 rfl

/-- A round of the worker on a submission that waits finds one, and saves it if its calls get
through. -/
theorem exists_pushed (cfg : Config) {env : PushEnv} (hwaits : Waits w.queueName s t)
    (hnamed : ∀ r ∈ t, NamesCallback r) (hcaught : env.Caught) :
    ∃ r c os, getSingleUnpushedSubmission cfg env.plan env.queryTime w.queueName t = some r ∧
      w.work env.toWorkEnv r = (os, .ok c) := by
  rcases hwaits with ⟨r₀, hr₀, -, hwaiting₀, -, hpush₀⟩
  cases hget : getSingleUnpushedSubmission cfg env.plan env.queryTime w.queueName t with
  | none =>
      have hno := getSingleSubmission_eq_none.1 hget r₀ hr₀
      rw [isAvailable_eq_isWaiting hpush₀, hwaiting₀] at hno
      cases hno
  | some r =>
      rcases work_of_caught w hcaught (hnamed r (mem_of_getSingleSubmission hget)) with ⟨c, hwork, -⟩
      exact ⟨r, c, _, rfl, hwork⟩

/-! ## One step -/

/-- The process of a queue that has a worker is one of that worker. -/
theorem ServiceInv.worker_eq (h : ServiceInv cfg st) (hnames : (cfg.xqueues.map Prod.fst).Nodup)
    (hw : w ∈ pushWorkers cfg) {p : Process} (hp : p ∈ st.monitor.workers)
    (hname : p.worker.queueName = w.queueName) : p.worker = w := by
  rcases h.monitor with ⟨os, hmonitor⟩
  exact List.inj_on_of_nodup_map (nodup_queueName_pushWorkers hnames) (hmonitor.configured p hp) hw hname

/-- No step loses the submission, and a round that gets through brings it closer. -/
theorem approaches_of_step (hnames : (cfg.xqueues.map Prod.fst).Nodup) (hw : w ∈ pushWorkers cfg)
    (hinv : ServiceInv cfg st) (hwaits : Waits w.queueName s st.table)
    (hquiet : TakesNoResult w.queueName st e)
    (hlater : ∀ event, e = .other event → ∀ request row,
      .inserted request row ∈ (event.run cfg st.table).2 → s.arrivalTime < row.arrivalTime)
    (hstep : ServiceStep cfg st e st' ps) :
    Approaches w s st.table st'.table ∧ (e.GetsThrough w → Waits w.queueName s st'.table →
      ahead w.queueName s.arrivalTime st'.table ⊂ ahead w.queueName s.arrivalTime st.table) := by
  have hnamed : ∀ r ∈ st.table, NamesCallback r := by
    rcases hinv.reachable with ⟨es, os, hrun⟩
    exact (recorded_of_run hrun).named
  cases hstep with
  | @finished p env table outputs halive hended =>
      by_cases hname : p.worker.queueName = w.queueName
      · have hpw := hinv.worker_eq hnames hw halive.1 hname
        rw [hpw] at hended
        have hcases := pushed_deliverSubmission cfg env w st.table
        rw [hended] at hcases
        cases hcases with
        | idle hget =>
            refine ⟨Approaches.refl hwaits, fun hthrough _ => ?_⟩
            rcases exists_pushed cfg hwaits hnamed hthrough.2 with ⟨r, c, os, hfound, -⟩
            rw [hget] at hfound
            cases hfound
        | saved hget hwork =>
            rcases approaches_of_saved hwaits hget hwork with ⟨happroaches, hcloser⟩
            exact ⟨happroaches, fun _ => hcloser⟩
      · -- a worker of another queue
        have hleaves : (Event.deliverSubmission env p.worker).LeavesQueue st.table w.queueName := by
          refine ⟨?_, ?_⟩
          · rintro env request r graderReply ⟨⟩
          · rintro env' worker ⟨⟩
            exact hname
        have hkept : QueueKept w.queueName _ st.table _ := queueKept_run cfg hleaves
        have hnone : ∀ request row, .inserted request row ∈
            ((Event.deliverSubmission env p.worker).run cfg st.table).2 →
              s.arrivalTime < row.arrivalTime :=
          fun request row hmem => absurd hmem not_inserted_of_delivery
        have happroaches := approaches_of_queueKept hkept hwaits hnone
        simp only [Event.run, Ended.observed, hended] at happroaches
        exact ⟨happroaches, fun hthrough _ => absurd (congrArg Worker.queueName hthrough.1) hname⟩
  | @crashed p env outputs exc halive hended =>
      -- nothing is saved, and a round whose calls get through does not end so
      refine ⟨Approaches.refl hwaits, fun hthrough _ => ?_⟩
      rcases hthrough with ⟨rfl, hcaught⟩
      rcases exists_pushed cfg hwaits hnamed hcaught with ⟨r, c, os, hget, hwork⟩
      simp [Worker.deliverSubmission, hget, hwork, Work.finish] at hended
  | interrupted => exact ⟨Approaches.refl hwaits, fun hthrough => hthrough.elim⟩
  | monitored => exact ⟨Approaches.refl hwaits, fun hthrough => hthrough.elim⟩
  | @other event hdelivery =>
      have hkept : QueueKept w.queueName _ st.table _ := queueKept_run cfg (hquiet.leavesQueue hdelivery)
      exact ⟨approaches_of_queueKept hkept hwaits (hlater event rfl), fun hthrough => hthrough.elim⟩

/-! ## Infinite runs -/

section

variable (hnames : (cfg.xqueues.map Prod.fst).Nodup) (hw : w ∈ pushWorkers cfg)
  (ht : (atomicSystem cfg).Reachable KeyedTable.empty t) (hstart : f 0 = startService cfg t)
  (hfair : FairService cfg w f act)

include hfair in
theorem FairService.step (n : ℕ) : ∃ ps, ServiceStep cfg (f n) (act n) (f (n + 1)) ps := by
  rcases hfair.run n with ⟨ps, hstep⟩
  exact ⟨ps, serviceStep_of_step hstep⟩

include hnames ht hstart hfair in
theorem FairService.inv (n : ℕ) : ServiceInv cfg (f n) := by
  induction n with
  | zero =>
      rw [hstart]
      exact serviceInv_start hnames ht
  | succ n ih =>
      rcases hfair.step n with ⟨ps, hstep⟩
      exact ih.step hstep

include hnames hw ht hstart hfair in
theorem FairService.supervises (n : ℕ) : (f n).Supervises w := by
  induction n with
  | zero =>
      rw [hstart]
      exact supervises_start hw
  | succ n ih =>
      rcases hfair.step n with ⟨ps, hstep⟩
      exact (hfair.inv hnames ht hstart n).supervises_step ih hstep (hfair.notInterrupted n)

include hnames hw ht hstart hfair in
/-- The monitor starts the worker again whenever it has ended. -/
theorem FairService.rounds_recur (n : ℕ) : ∃ m, n ≤ m ∧ (act m).IsRoundOf w := by
  by_contra hnone
  have hno : ∀ m, n ≤ m → ∀ p env, act m = .round p env → p.worker ≠ w := by
    rintro m hm p env hact rfl
    exact hnone ⟨m, hm, by rw [hact]; rfl⟩
  rcases hfair.monitored n with ⟨m, hm, hmonitor⟩
  rcases hfair.step m with ⟨ps, hstep⟩
  rw [hmonitor] at hstep
  have hinv := hfair.inv hnames ht hstart
  -- the process that runs after the round of the monitor
  have hrunning : ∃ p, (f (m + 1)).IsAlive p ∧ p.worker = w := by
    generalize hnext : f (m + 1) = next at hstep
    cases hstep with
    | monitored hround =>
        exact (hinv m).alive_of_monitored (hfair.supervises hnames hw ht hstart m) hround
  rcases hrunning with ⟨p, halive, hpw⟩
  have hforever : ∀ k, m + 1 ≤ k → (f k).IsAlive p := by
    intro k hk
    induction k, hk using Nat.le_induction with
    | base => exact halive
    | succ k hk ih =>
        rcases hfair.step k with ⟨ps, hstep⟩
        refine (hinv k).alive_step ih hstep ?_ ?_
        · exact fun env hact => hno k (hm.trans (Nat.le_of_succ_le hk)) p env hact hpw
        · exact fun signal env made hact => hfair.notInterrupted k p signal env made hact hpw
  rcases hfair.scheduled (m + 1) p hpw hforever with ⟨k, env, hk, hact⟩
  exact hno k (hm.trans (Nat.le_of_succ_le hk)) p env hact hpw

include hnames hw ht hstart hfair in
theorem FairService.approaches {n : ℕ} (hwaits : Waits w.queueName s (f n).table) :
    Approaches w s (f n).table (f (n + 1)).table ∧
      ((act n).GetsThrough w → Waits w.queueName s (f (n + 1)).table →
        ahead w.queueName s.arrivalTime (f (n + 1)).table ⊂
          ahead w.queueName s.arrivalTime (f n).table) := by
  rcases hfair.step n with ⟨ps, hstep⟩
  refine approaches_of_step hnames hw (hfair.inv hnames ht hstart n) hwaits (hfair.noResult n) ?_ hstep
  intro event hact request row hmem
  rcases hwaits with ⟨r, hr, -, hwaiting, harrival, -⟩
  simp only [isWaiting, Bool.and_eq_true, beq_iff_eq] at hwaiting
  rw [← harrival]
  exact hfair.later n event hact request row hmem r hr hwaiting.1

end

/-- A submission that waits in a push queue and has not been pushed is retired in the end, whatever
else the service does between the rounds: the worker is started again after every exception, and the queue is served in the order of arrival. -/
theorem settled_eventually (hnames : (cfg.xqueues.map Prod.fst).Nodup) (hw : w ∈ pushWorkers cfg)
    (ht : (atomicSystem cfg).Reachable KeyedTable.empty t) (hstart : f 0 = startService cfg t)
    (hfair : FairService cfg w f act) (n : ℕ) :
    ∀ s ∈ waiting w.queueName (f n).table, s.pushTime = none →
      ∃ m, n ≤ m ∧ SettledBy w s.id (f m).table := by
  classical
  intro s hs hnew
  have hfirst : Waits w.queueName s (f n).table :=
    ⟨s, (mem_waiting.1 hs).1, rfl, (mem_waiting.1 hs).2, rfl, hnew⟩
  -- the rows ahead become fewer with every round that gets through
  have hends : ∃ m, n ≤ m ∧ ¬ Waits w.queueName s (f m).table := by
    have hrank := eventually_of_rank (f := f) (fun k => (act k).GetsThrough w)
      (fun st => ¬ Waits w.queueName s st.table)
      (fun st => ahead w.queueName s.arrivalTime st.table) ?_ ?_ n
    · rcases hrank with hgoal | ⟨m, -, hstop⟩
      · exact hgoal
      · rcases hfair.caught (hfair.rounds_recur hnames hw ht hstart) m with ⟨k, hk, hthrough⟩
        exact absurd hthrough (hstop k hk)
    · intro k hwaits hthrough
      rw [not_not] at hwaits
      have hcloser := (hfair.approaches hnames hw ht hstart hwaits).2 hthrough
      by_cases hnext : Waits w.queueName s (f (k + 1)).table
      · exact Or.inr (hcloser hnext)
      · exact Or.inl hnext
    · intro k hwaits _
      rw [not_not] at hwaits
      exact (hfair.approaches hnames hw ht hstart hwaits).1.ahead
  -- the last step at which it waits settles it
  rcases Nat.find_spec hends with ⟨hle, hnot⟩
  have hne : Nat.find hends ≠ n := by
    intro heq
    rw [heq] at hnot
    exact hnot hfirst
  have hpos : n < Nat.find hends := lt_of_le_of_ne hle (Ne.symm hne)
  have hlast : Waits w.queueName s (f (Nat.find hends - 1)).table := by
    by_contra hno
    exact Nat.find_min hends (Nat.sub_lt (Nat.zero_lt_of_lt hpos) Nat.one_pos) ⟨Nat.le_pred_of_lt hpos, hno⟩
  have happroaches := (hfair.approaches hnames hw ht hstart hlast).1.row
  rw [Nat.sub_add_cancel (Nat.one_le_of_lt hpos)] at happroaches
  exact ⟨Nat.find hends, hle, happroaches.resolve_right hnot⟩

/-! ## A worker that fails once -/

/-- A monitor with nothing to do. -/
theorem step_monitor_of_running (hnodup : st.monitor.workers.Nodup) (hne : st.monitor.workers ≠ [])
    (hrunning : ∀ p ∈ st.monitor.workers, st.exitcode p.pid = none) :
    ∃ ps, (serviceSystem cfg).step st .monitor = some (st, ps) := by
  have hkept : st.monitor.workers.filter (IsRunning fun p => st.exitcode p.pid) = st.monitor.workers :=
    List.filter_eq_self.2 fun p hp => isRunning_iff.2 (hrunning p hp)
  have hfailed : st.monitor.workers.filter (HasFailed fun p => st.exitcode p.pid) = [] := by
    refine List.filter_eq_nil_iff.2 fun p hp hfailed => ?_
    rcases hasFailed_iff.1 hfailed with ⟨code, hcode, -⟩
    rw [hrunning p hp] at hcode
    cases hcode
  have hnext : roundNext (fun p => st.exitcode p.pid) st.monitor = st.monitor := by
    simp only [roundNext, hkept, hfailed, List.map_nil, launch, List.append_nil, List.length_nil,
      Nat.add_zero]
  refine ⟨(roundOutputs (fun p => st.exitcode p.pid) st.monitor).map .monitor, ?_⟩
  simp only [serviceSystem, Service.step, step_of_ne_nil hne hnodup, hnext]

theorem step_round_of_empty {p : Process} {env : PushEnv} (halive : st.IsAlive p)
    (hempty : waiting p.worker.queueName st.table = []) :
    (serviceSystem cfg).step st (.round p env) = some (st, [.round p [] (.ok ())]) := by
  simp only [serviceSystem, Service.step, halive, if_true, deliverSubmission_of_waiting_eq_nil hempty]

/-- A job for the push queue. -/
def oneJob : Table :=
  tableAfter pushSettings [.submit pathStorage ⟨clockAt 0, clockAt 0, true⟩
    (jobFor (py "/lms/1/problem"))] KeyedTable.empty

def failingRound : PushEnv :=
  roundAt 2 (.response 200 (py "graded")) (fun _ => .raised .requestException)

def goodRound : PushEnv :=
  roundAt 3 (.response 200 (py "graded")) (fun _ => .response 200 [])

/-- The first process fails; the second one takes turns with the monitor. -/
def failsOnce (n : ℕ) : ServiceEvent :=
  if n = 0 then .round ⟨0, pushWorker⟩ failingRound
  else if n % 2 = 1 then .monitor else .round ⟨1, pushWorker⟩ goodRound

def failsOnceState : ℕ → Service
  | 0 => startService pushSettings oneJob
  | n + 1 =>
      match (serviceSystem pushSettings).step (failsOnceState n) (failsOnce n) with
      | some (st, _) => st
      | none => failsOnceState n

theorem failsOnce_third : (failsOnceState 3).monitor = ⟨[⟨1, pushWorker⟩], 2⟩ ∧
    (failsOnceState 3).exitcode 1 = none ∧
    (waiting (py "test-pull") (failsOnceState 3).table).length = 0 := by
  decide +kernel

/-- With the second process running and the queue empty nothing changes. -/
theorem step_failsOnce (hmonitor : st.monitor = ⟨[⟨1, pushWorker⟩], 2⟩) (hexit : st.exitcode 1 = none)
    (hempty : waiting pushWorker.queueName st.table = []) (n : ℕ) :
    ∃ ps, (serviceSystem pushSettings).step st (failsOnce (n + 3)) = some (st, ps) := by
  have hworkers : st.monitor.workers = [⟨1, pushWorker⟩] := congrArg MonitorState.workers hmonitor
  have halive : st.IsAlive ⟨1, pushWorker⟩ := ⟨by simp [hworkers], hexit⟩
  unfold failsOnce
  split
  · omega
  · split
    · refine step_monitor_of_running (by simp [hworkers]) (by simp [hworkers]) ?_
      intro p hp
      rw [hworkers, List.mem_singleton] at hp
      rw [hp]
      exact hexit
    · exact ⟨_, step_round_of_empty halive hempty⟩

theorem step_third (n : ℕ) : ∃ ps,
    (serviceSystem pushSettings).step (failsOnceState 3) (failsOnce (n + 3)) =
      some (failsOnceState 3, ps) :=
  step_failsOnce failsOnce_third.1 failsOnce_third.2.1 (List.length_eq_zero_iff.1 failsOnce_third.2.2) n

theorem failsOnceState_succ {n : ℕ} {ps : List ServiceOutput}
    (h : (serviceSystem pushSettings).step (failsOnceState n) (failsOnce n) = some (st, ps)) :
    failsOnceState (n + 1) = st := by
  rw [failsOnceState, h]

theorem failsOnceState_add_three (n : ℕ) : failsOnceState (n + 3) = failsOnceState 3 := by
  induction n with
  | zero => rw [Nat.zero_add]
  | succ n ih =>
      rcases step_third n with ⟨ps, hstep⟩
      rw [← ih] at hstep
      rw [Nat.add_right_comm]
      exact (failsOnceState_succ hstep).trans ih

theorem infiniteRun_failsOnce :
    InfiniteRun (serviceSystem pushSettings) failsOnceState failsOnce := by
  have hsome : ∀ n, ((serviceSystem pushSettings).step (failsOnceState n) (failsOnce n)).isSome = true := by
    intro n
    by_cases hn : n < 3
    · have hfirst : ∀ k < 3,
          ((serviceSystem pushSettings).step (failsOnceState k) (failsOnce k)).isSome = true := by
        decide +kernel
      exact hfirst n hn
    · rcases Nat.exists_eq_add_of_le' (Nat.not_lt.1 hn) with ⟨k, rfl⟩
      rcases step_third k with ⟨ps, hstep⟩
      rw [failsOnceState_add_three, hstep]
      rfl
  intro n
  rcases Option.isSome_iff_exists.1 (hsome n) with ⟨⟨st, ps⟩, hstep⟩
  rw [failsOnceState_succ hstep]
  exact ⟨ps, hstep⟩

theorem caught_goodRound : goodRound.Caught :=
  ⟨rfl, fun _ _ _ => rfl⟩

theorem fairService_failsOnce : FairService pushSettings pushWorker failsOnceState failsOnce := by
  have hround : ∀ n, failsOnce (2 * (n + 1)) = .round ⟨1, pushWorker⟩ goodRound := by
    intro n
    simp [failsOnce]
  have hmonitor : ∀ n, failsOnce (2 * n + 1) = .monitor := by
    intro n
    simp [failsOnce, Nat.add_mod]
  have hcases : ∀ n, failsOnce n = .monitor ∨ ∃ p env, failsOnce n = .round p env := by
    intro n
    unfold failsOnce
    split
    · exact Or.inr ⟨_, _, rfl⟩
    · split
      · exact Or.inl rfl
      · exact Or.inr ⟨_, _, rfl⟩
  refine ⟨infiniteRun_failsOnce, ?_, ?_, ?_, ?_, ?_, ?_⟩
  · exact fun n => ⟨2 * n + 1, by omega, hmonitor n⟩
  · intro n p hpw halive
    have hmem := (halive (n + 3) (Nat.le_add_right _ _)).1
    rw [failsOnceState_add_three, failsOnce_third.1, List.mem_singleton] at hmem
    exact ⟨2 * (n + 1), goodRound, by omega, by rw [hround, hmem]⟩
  · intro _ n
    refine ⟨2 * (n + 1), by omega, ?_⟩
    rw [hround]
    exact ⟨rfl, caught_goodRound⟩
  · intro n p signal env made hact
    rcases hcases n with h | ⟨p, env, h⟩
    · rw [h] at hact
      cases hact
    · rw [h] at hact
      cases hact
  · intro n
    rcases hcases n with h | ⟨p, env, h⟩
    · rw [h]
      trivial
    · rw [h]
      trivial
  · intro n e hact
    rcases hcases n with h | ⟨p, env, h⟩
    · rw [h] at hact
      cases hact
    · rw [h] at hact
      cases hact

/-- The job is settled, although its first worker ends with an exception. -/
theorem settled_eventually_failsOnce : ∃ m, SettledBy pushWorker 1 (failsOnceState m).table := by
  have hjob : ∃ s ∈ waiting (py "test-pull") oneJob, s.id = 1 ∧ s.pushTime = none := by
    decide +kernel
  rcases hjob with ⟨s, hs, hid, hnew⟩
  rcases settled_eventually (by decide +kernel) (by decide +kernel) (reachable_tableAfter _ _ _) rfl
    fairService_failsOnce 0 s hs hnew with ⟨m, -, hsettled⟩
  rw [hid] at hsettled
  exact ⟨m, hsettled⟩

end Xqueue
