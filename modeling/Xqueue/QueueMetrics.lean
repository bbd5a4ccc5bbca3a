import Xqueue.Commands.CountQueuedSubmissions
import Xqueue.Deployment

/-!
# QueueMetrics — every queue is reported once to CloudWatch

* `countsQueues_queueCounts` : the query counts the unretired rows of each queue;
* `callsOf_sendCloudwatchMetrics` : chunk by chunk, one metric call and then the alarms;
* `performEach_of_returned` : all steps are performed when the calls succeed;
* `reports_each_queue` : what `count_queued_submissions --cloudwatch` sends.
-/

namespace Xqueue

open Library

variable {Threshold : Type} {cw : CloudwatchConfiguration Threshold} {env : CountEnv} {t : Table}
  {plan : QueryPlan} {names : List PyStr} {name : PyStr} {counts : List QueueCount}
  {queues : List QueueCount} {steps : List (CountStep Threshold)}
  {calls calls' : List (CloudwatchCall Threshold)} {outcome : Nat → Except CountExc Unit} {k : Nat}

/-- Number of unretired rows of a queue. -/
def countUnretired (name : PyStr) (t : Table) : Nat :=
  t.rows.countP (fun s => isUnretired s && s.queueName == name)

/-- The rows of the query: one for each queue name with an unretired row, with their number, and
the largest numbers first. -/
structure CountsQueues (t : Table) (counts : List QueueCount) : Prop where
  nodup : (counts.map QueueCount.queueName).Nodup
  covers : ∀ name, name ∈ counts.map QueueCount.queueName ↔
    ∃ s ∈ t, s.queueName = name ∧ s.retired = false
  counted : ∀ q ∈ counts, q.queueCount = countUnretired q.queueName t
  sorted : counts.Pairwise (fun p q => q.queueCount ≤ p.queueCount)
  total : (counts.map QueueCount.queueCount).sum = t.rows.countP isUnretired

/-! ## The query -/

theorem perm_groupByQueueName : (groupByQueueName names).Perm
    (names.dedup.map (fun name => ⟨name, names.count name⟩)) :=
  List.perm_insertionSort _ _

theorem perm_queueName_groups : ((groupByQueueName names).map QueueCount.queueName).Perm names.dedup := by
  have hperm := (@perm_groupByQueueName names).map QueueCount.queueName
  have hnames : (names.dedup.map fun name => (⟨name, names.count name⟩ : QueueCount)).map
      QueueCount.queueName = names.dedup := by
    rw [List.map_map]
    exact List.map_id names.dedup
  rwa [hnames] at hperm

theorem sum_groupByQueueName : ((groupByQueueName names).map QueueCount.queueCount).sum =
    names.length := by
  have hbeq : (List.instBEq : BEq PyStr) = instBEqOfDecidableEq := lawful_beq_subsingleton _ _
  calc
    ((groupByQueueName names).map QueueCount.queueCount).sum
        = ((names.dedup.map (fun name => (⟨name, names.count name⟩ : QueueCount))).map
            QueueCount.queueCount).sum := (perm_groupByQueueName.map _).sum_eq
    _ = (names.dedup.map (fun name => names.count name)).sum := by
        rw [List.map_map]
        rfl
    _ = names.length := by
        rw [hbeq]
        exact List.sum_map_count_dedup_eq_length names

theorem sorted_groupByQueueName :
    (groupByQueueName names).Pairwise (fun p q => q.queueCount ≤ p.queueCount) := by
  have htotal : Std.Total (fun p q : QueueCount => q.queueCount ≤ p.queueCount) :=
    ⟨fun p q => Nat.le_total q.queueCount p.queueCount⟩
  have htrans : IsTrans QueueCount (fun p q => q.queueCount ≤ p.queueCount) :=
    ⟨fun _ _ _ hpq hqr => Nat.le_trans hqr hpq⟩
  exact List.pairwise_insertionSort _ _

/-- The names the query groups by. -/
def unretiredNames (plan : QueryPlan) (t : Table) : List PyStr :=
  (plan.order (t.rows.filter isUnretired)).map Submission.queueName

theorem mem_unretiredNames : name ∈ unretiredNames plan t ↔
    ∃ s ∈ t, s.queueName = name ∧ s.retired = false := by
  simp only [unretiredNames, List.mem_map, mem_order_filter, isUnretired, Bool.not_eq_true']
  constructor
  · rintro ⟨s, ⟨hs, hretired⟩, hname⟩
    exact ⟨s, hs, hname, hretired⟩
  · rintro ⟨s, hs, hname, hretired⟩
    exact ⟨s, ⟨hs, hretired⟩, hname⟩

theorem count_unretiredNames : (unretiredNames plan t).count name = countUnretired name t := by
  calc
    (unretiredNames plan t).count name
        = (plan.order (t.rows.filter isUnretired)).countP (fun s => s.queueName == name) := by
            rw [unretiredNames, List.count, List.countP_map]
            rfl
    _ = (t.rows.filter isUnretired).countP (fun s => s.queueName == name) :=
          (plan.perm _).countP_eq _
    _ = countUnretired name t := by
          rw [List.countP_filter, countUnretired]
          simp only [Bool.and_comm]

theorem length_unretiredNames : (unretiredNames plan t).length = t.rows.countP isUnretired := by
  rw [unretiredNames, List.length_map, (plan.perm _).length_eq, List.countP_eq_length_filter]

theorem countsQueues_queueCounts : CountsQueues t (queueCounts plan t) where
  nodup := perm_queueName_groups.nodup_iff.2 (List.nodup_dedup _)
  covers := by
    intro name
    rw [queueCounts, perm_queueName_groups.mem_iff, List.mem_dedup]
    exact mem_unretiredNames
  counted := by
    intro q hq
    rcases List.mem_map.1 (perm_groupByQueueName.mem_iff.1 hq) with ⟨name, -, rfl⟩
    exact count_unretiredNames
  sorted := sorted_groupByQueueName
  total := sum_groupByQueueName.trans length_unretiredNames

/-! ## The calls -/

/-- The calls of CloudWatch among the steps. -/
def callsOf (steps : List (CountStep Threshold)) : List (CloudwatchCall Threshold) :=
  steps.filterMap (fun step => match step with | .call c => some c | _ => none)

/-- The calls for one chunk of queues. -/
def chunkCalls (cw : CloudwatchConfiguration Threshold) (queues : List QueueCount) :
    List (CloudwatchCall Threshold) :=
  .putMetricData cw.nameSpace (queues.map metricDatum) ::
    queues.map (fun queue => .putMetricAlarm (cw.alarm queue.queueName))

/-- The concatenation of what the metric calls carry. -/
def sentData (calls : List (CloudwatchCall Threshold)) : List MetricDatum :=
  calls.flatMap (fun c => match c with | .putMetricData _ data => data | .putMetricAlarm _ => [])

def sentAlarms (calls : List (CloudwatchCall Threshold)) : List (MetricAlarm Threshold) :=
  calls.filterMap (fun c => match c with | .putMetricData _ _ => none | .putMetricAlarm a => some a)

/-- An alarm follows a metric call with an entry for its queue. -/
def FollowsMetric (calls : List (CloudwatchCall Threshold)) : Prop :=
  ∀ before alarm after, calls = before ++ .putMetricAlarm alarm :: after →
    ∃ nameSpace data, .putMetricData nameSpace data ∈ before ∧
      ∃ d ∈ data, d.dimensions = alarm.dimensions

theorem callsOf_append {steps' : List (CountStep Threshold)} :
    callsOf (steps ++ steps') = callsOf steps ++ callsOf steps' :=
  List.filterMap_append

theorem callsOf_prettyPrintQueues :
    callsOf (prettyPrintQueues counts : List (CountStep Threshold)) = [] := by
  rw [callsOf, prettyPrintQueues, List.filterMap_map]
  exact List.filterMap_eq_nil_iff.2 fun _ _ => rfl

theorem callsOf_sendQueues {tuple : List (Option QueueCount)} (h : tuple.reduceOption ≠ []) :
    callsOf (sendQueues cw tuple) = chunkCalls cw tuple.reduceOption := by
  have hpos : 0 < (tuple.reduceOption.map metricDatum).length := by
    rw [List.length_map]
    exact List.length_pos_of_ne_nil h
  rw [sendQueues, if_pos hpos, callsOf_append, chunkCalls]
  refine congrArg (List.cons _) ?_
  generalize tuple.reduceOption = queues
  induction queues with
  | nil => rfl
  | cons queue queues ih => exact congrArg (List.cons _) ih

theorem callsOf_sendCloudwatchMetrics :
    callsOf (sendCloudwatchMetrics cw counts) = (chunks counts 10).flatMap (chunkCalls cw) := by
  have hne : ∀ tuple ∈ grouper counts 10, tuple.reduceOption ≠ [] := by
    intro tuple htuple
    have hsize := @length_of_mem_chunks QueueCount 10 counts (by decide) tuple.reduceOption
      (List.mem_map_of_mem htuple)
    exact List.ne_nil_of_length_pos hsize.1
  rw [sendCloudwatchMetrics, chunks, List.flatMap_map]
  revert hne
  generalize grouper counts 10 = tuples
  intro hne
  induction tuples with
  | nil => rfl
  | cons tuple tuples ih =>
      rw [List.flatMap_cons, List.flatMap_cons, callsOf_append,
        callsOf_sendQueues (hne tuple (by simp)), ih fun tuple h => hne tuple (by simp [h])]

theorem sentData_chunkCalls : sentData (chunkCalls cw queues) = queues.map metricDatum := by
  have halarms : (queues.map fun queue =>
      (CloudwatchCall.putMetricAlarm (cw.alarm queue.queueName))).flatMap
        (fun c => match c with | .putMetricData _ data => data | .putMetricAlarm _ => []) = [] := by
    rw [List.flatMap_map]
    exact List.flatMap_eq_nil_iff.2 fun _ _ => rfl
  rw [sentData, chunkCalls, List.flatMap_cons, halarms, List.append_nil]

theorem sentAlarms_chunkCalls :
    sentAlarms (chunkCalls cw queues) = queues.map (fun queue => cw.alarm queue.queueName) := by
  rw [sentAlarms, chunkCalls, List.filterMap_cons_none rfl, List.filterMap_map]
  exact congrFun (List.filterMap_eq_map (f := fun queue => cw.alarm queue.queueName)) queues

theorem FollowsMetric.append (h : FollowsMetric calls) (h' : FollowsMetric calls') :
    FollowsMetric (calls ++ calls') := by
  intro before alarm after heq
  rcases List.append_eq_append_iff.1 heq with ⟨mid, rfl, hmid⟩ | ⟨mid, rfl, hmid⟩
  · rcases h' mid alarm after hmid with ⟨nameSpace, data, hdata, hd⟩
    exact ⟨nameSpace, data, List.mem_append_right _ hdata, hd⟩
  · cases mid with
    | nil =>
        rcases h' [] alarm after hmid.symm with ⟨_, _, hdata, _⟩
        exact absurd hdata List.not_mem_nil
    | cons c mid =>
        rcases List.cons.inj hmid with ⟨rfl, rfl⟩
        exact h before alarm mid rfl

theorem followsMetric_chunkCalls : FollowsMetric (chunkCalls cw queues) := by
  intro before alarm after heq
  cases before with
  | nil => cases (List.cons.inj heq).1
  | cons c before =>
      rcases List.cons.inj heq with ⟨rfl, halarms⟩
      have hmem : .putMetricAlarm alarm ∈
          queues.map (fun queue => CloudwatchCall.putMetricAlarm (cw.alarm queue.queueName)) := by
        rw [halarms]
        simp
      rcases List.mem_map.1 hmem with ⟨queue, hqueue, halarm⟩
      cases halarm
      exact ⟨_, _, List.mem_cons_self, metricDatum queue, List.mem_map_of_mem hqueue, rfl⟩

/-- The calls of all chunks together carry what the chunks hold. -/
theorem sentData_flatMap {cs : List (List QueueCount)} :
    sentData (cs.flatMap (chunkCalls cw)) = cs.flatten.map metricDatum := by
  induction cs with
  | nil => rfl
  | cons c cs ih =>
      calc
        sentData ((c :: cs).flatMap (chunkCalls cw))
            = sentData (chunkCalls cw c) ++ sentData (cs.flatMap (chunkCalls cw)) :=
              List.flatMap_append
        _ = c.map metricDatum ++ cs.flatten.map metricDatum := by rw [sentData_chunkCalls, ih]
        _ = (c :: cs).flatten.map metricDatum := List.map_append.symm

theorem sentAlarms_flatMap {cs : List (List QueueCount)} : sentAlarms (cs.flatMap (chunkCalls cw)) =
    cs.flatten.map (fun queue => cw.alarm queue.queueName) := by
  induction cs with
  | nil => rfl
  | cons c cs ih =>
      calc
        sentAlarms ((c :: cs).flatMap (chunkCalls cw))
            = sentAlarms (chunkCalls cw c) ++ sentAlarms (cs.flatMap (chunkCalls cw)) :=
              List.filterMap_append
        _ = c.map (fun queue => cw.alarm queue.queueName) ++
              cs.flatten.map (fun queue => cw.alarm queue.queueName) := by
              rw [sentAlarms_chunkCalls, ih]
        _ = (c :: cs).flatten.map (fun queue => cw.alarm queue.queueName) := List.map_append.symm

theorem followsMetric_flatMap {cs : List (List QueueCount)} :
    FollowsMetric (cs.flatMap (chunkCalls cw)) := by
  induction cs with
  | nil =>
      intro before alarm after heq
      simp at heq
  | cons c cs ih => exact followsMetric_chunkCalls.append ih

theorem mem_chunkCalls_putMetricData {cs : List (List QueueCount)} {nameSpace : PyStr}
    {data : List MetricDatum} (h : .putMetricData nameSpace data ∈ cs.flatMap (chunkCalls cw)) :
    ∃ c ∈ cs, nameSpace = cw.nameSpace ∧ data = c.map metricDatum := by
  rcases List.mem_flatMap.1 h with ⟨c, hc, hmem⟩
  rcases List.mem_cons.1 hmem with heq | hmem
  · cases heq
    exact ⟨c, hc, rfl, rfl⟩
  · rcases List.mem_map.1 hmem with ⟨queue, -, heq⟩
    cases heq

/-! ## Performing the steps -/

theorem performEach_of_returned (hok : ∀ k, outcome k = .ok ()) (hraise : ∀ e, .raise e ∉ steps) :
    performEach outcome k steps = (steps, .ok ()) := by
  induction steps generalizing k with
  | nil => rfl
  | cons step steps ih =>
      have hrest : ∀ k, performEach outcome k steps = (steps, .ok ()) :=
        fun k => ih fun e he => hraise e (List.mem_cons_of_mem _ he)
      cases step with
      | raise e => exact absurd List.mem_cons_self (hraise e)
      | call c =>
          have hcall : callWithBackoff outcome (.call c) maxTries k = ([.call c], k + 1, .ok ()) := by
            simp only [maxTries, callWithBackoff, hok]
          simp only [performEach, hcall, hrest]
          rfl
      | _ => simp only [performEach, hrest]

/-- Without `--newrelic`, no step raises. -/
theorem raise_notMem_countSteps {e : CountExc} {cloudwatch : Bool} :
    .raise e ∉ countSteps cw env ⟨false, cloudwatch⟩ t := by
  intro hmem
  rcases List.mem_append.1 hmem with hmem | hmem
  · rcases List.mem_append.1 hmem with hmem | hmem
    · rcases List.mem_map.1 hmem with ⟨queue, -, heq⟩
      cases heq
    · exact absurd hmem List.not_mem_nil
  · cases cloudwatch with
    | false => exact absurd hmem List.not_mem_nil
    | true =>
        rcases List.mem_flatMap.1 hmem with ⟨tuple, -, hmem⟩
        rcases List.mem_append.1 hmem with hmem | hmem
        · split at hmem <;> simp at hmem
        · rcases List.mem_flatMap.1 hmem with ⟨queue, -, hmem⟩
          simp at hmem

/-! ## The report -/

theorem thresholdFor_of_notMem (h : name ∉ cw.thresholds.map Prod.fst) :
    cw.thresholdFor name = cw.defaultThreshold := by
  have hlookup : cw.thresholds.lookup name = none := by
    refine List.lookup_eq_none_iff.2 fun p hp => ?_
    have hne : name ≠ p.1 := fun heq => h (heq ▸ List.mem_map_of_mem hp)
    exact bne_iff_ne.2 hne
  simp only [CloudwatchConfiguration.thresholdFor, hlookup]

theorem thresholdFor_of_mem {threshold : Threshold} (h : (name, threshold) ∈ cw.thresholds) :
    cw.thresholdFor name = threshold := by
  cases hlookup : cw.thresholds.lookup name with
  | none => simpa using List.lookup_eq_none_iff.1 hlookup _ h
  | some found =>
      rcases List.lookup_eq_some_iff.1 hlookup with ⟨before, after, heq, -⟩
      have hfound : (name, found) ∈ cw.thresholds := by simp [heq]
      have hpair := List.inj_on_of_nodup_map cw.nodup hfound h rfl
      simp only [CloudwatchConfiguration.thresholdFor, hlookup]
      exact congrArg Prod.snd hpair

/-- The calls report the queues of the table: the metric calls in chunks of at most ten entries,
each alarm once and after the entry of its queue. -/
structure ReportsQueues (cw : CloudwatchConfiguration Threshold) (t : Table)
    (calls : List (CloudwatchCall Threshold)) : Prop where
  sizes : ∀ nameSpace data, .putMetricData nameSpace data ∈ calls →
    1 ≤ data.length ∧ data.length ≤ 10
  /-- The entries and the alarms are those of the queues; there is no other entry. -/
  queues : ∃ counts, CountsQueues t counts ∧ sentData calls = counts.map metricDatum ∧
    sentAlarms calls = counts.map (fun queue => cw.alarm queue.queueName)
  follows : FollowsMetric calls
  configured : ∀ name threshold, (name, threshold) ∈ cw.thresholds →
    (cw.alarm name).threshold = threshold
  defaulted : ∀ name, name ∉ cw.thresholds.map Prod.fst →
    (cw.alarm name).threshold = cw.defaultThreshold

theorem reportsQueues_chunkCalls (h : CountsQueues t counts) :
    ReportsQueues cw t ((chunks counts 10).flatMap (chunkCalls cw)) where
  sizes := by
    intro nameSpace data hmem
    rcases mem_chunkCalls_putMetricData hmem with ⟨c, hc, -, rfl⟩
    rw [List.length_map]
    exact length_of_mem_chunks (by decide) c hc
  queues := by
    refine ⟨counts, h, ?_, ?_⟩
    · rw [sentData_flatMap, flatten_chunks (by decide)]
    · rw [sentAlarms_flatMap, flatten_chunks (by decide)]
  follows := followsMetric_flatMap
  configured := fun _ _ => thresholdFor_of_mem
  defaulted := fun _ => thresholdFor_of_notMem

/-- The report to CloudWatch.

For every table and every configuration, `count_queued_submissions --cloudwatch` succeeds when
the calls do, and its calls report each queue with unretired rows exactly once. -/
theorem reports_each_queue {Threshold : Type} (cw : CloudwatchConfiguration Threshold)
    (env : CountEnv) (t : Table) (hok : ∀ k, env.outcome k = .ok ()) :
    (countQueuedSubmissions cw env ⟨false, true⟩ t).2 = .ok () ∧
      ReportsQueues cw t (callsOf (countQueuedSubmissions cw env ⟨false, true⟩ t).1) := by
  have hperform : countQueuedSubmissions cw env ⟨false, true⟩ t =
      (countSteps cw env ⟨false, true⟩ t, .ok ()) :=
    performEach_of_returned hok fun _ => raise_notMem_countSteps
  have hcalls : callsOf (countSteps cw env ⟨false, true⟩ t) =
      (chunks (queueCounts env.plan t) 10).flatMap (chunkCalls cw) := by
    show callsOf ((prettyPrintQueues (queueCounts env.plan t) ++ []) ++
      sendCloudwatchMetrics cw (queueCounts env.plan t)) = _
    rw [callsOf_append, List.append_nil, callsOf_prettyPrintQueues, callsOf_sendCloudwatchMetrics]
    rfl
  rw [hperform]
  refine ⟨rfl, ?_⟩
  show ReportsQueues cw t (callsOf (countSteps cw env ⟨false, true⟩ t))
  rw [hcalls]
  exact reportsQueues_chunkCalls countsQueues_queueCounts

/-! ## Eleven queues -/

/-- The values of `xqueue/settings.py`. -/
def devMetrics : CloudwatchConfiguration Nat where
  environment := py "dev"
  deployment := py "stack"
  snsArns := [py "arn:aws:sns:::"]
  defaultThreshold := 50
  thresholds := [(py "test-pull", 100)]
  nodup := by decide

/-- A row for the queue whose name is `n` letters long. -/
def letterRow (retired : Bool) (n id : Nat) : Submission :=
  { newSubmission (jobFor (py "/lms/1/problem"))
      ⟨.str (py "/lms/1/problem"), List.replicate n (ch 'q'), [], []⟩ [] [] [] (clockAt 0) id with
    retired := retired }

/-- One row for each of eleven queues, a second one for the last of them, and a retired row. -/
def elevenQueues : Table :=
  ((List.range 11).map (fun n => (false, n)) ++ [(false, 10), (true, 11)]).foldl
    (fun (t : Table) (row : Bool × Nat) => t.insert (letterRow row.1 row.2) (fun _ => rfl)) KeyedTable.empty

def connected : CountEnv where
  plan := .insertion
  newrelic := false
  outcome := fun _ => .ok ()

/-- Two metric calls and eleven alarms. -/
theorem reports_each_queue_eleven :
    ((countQueuedSubmissions devMetrics connected ⟨false, true⟩ elevenQueues).2 = .ok () ∧
      ReportsQueues devMetrics elevenQueues
        (callsOf (countQueuedSubmissions devMetrics connected ⟨false, true⟩ elevenQueues).1)) ∧
      (callsOf (countQueuedSubmissions devMetrics connected ⟨false, true⟩ elevenQueues).1).length =
        13 :=
  ⟨reports_each_queue devMetrics connected elevenQueues (fun _ => rfl), by decide +kernel⟩

end Xqueue
