import Mathlib.Algebra.BigOperators.Group.List.Lemmas
import Mathlib.Data.List.Sort
import Xqueue.Library.Grouper
import Xqueue.Models

/-!
# CountQueuedSubmissions — queue lengths for the console, New Relic and CloudWatch

This file embeds `count_queued_submissions.py`:

* `queueCounts` : the query, a group for each queue name;
* `countSteps` : what `handle` does for the groups, in order;
* `performEach` : the steps, with the retries of `CwBotoWrapper` and the first exception.

Nothing in the loops depends on what a call returns, so that they are a list of steps.
-/

namespace Xqueue

open Library

/-- A row of the query. -/
structure QueueCount where
  queueName : PyStr
  queueCount : Nat
  deriving DecidableEq, Repr

/-- `settings.CLOUDWATCH_QUEUE_COUNT_METRICS`, for any numbers as thresholds. -/
structure CloudwatchConfiguration (Threshold : Type) where
  environment : PyStr
  deployment : PyStr
  snsArns : List PyStr
  defaultThreshold : Threshold
  thresholds : List (PyStr × Threshold)
  nodup : (thresholds.map Prod.fst).Nodup

structure Dimension where
  name : PyStr
  value : PyStr
  deriving DecidableEq, Repr

structure MetricDatum where
  metricName : PyStr
  dimensions : List Dimension
  value : Nat
  deriving DecidableEq, Repr

structure MetricAlarm (Threshold : Type) where
  alarmName : PyStr
  alarmDescription : PyStr
  nameSpace : PyStr
  metricName : PyStr
  dimensions : List Dimension
  period : Nat
  evaluationPeriods : Nat
  treatMissingData : PyStr
  threshold : Threshold
  comparisonOperator : PyStr
  statistic : PyStr
  insufficientDataActions : List PyStr
  okActions : List PyStr
  alarmActions : List PyStr
  deriving DecidableEq, Repr

inductive CountExc where
  | commandError
  /-- `botocore.exceptions.ClientError` -/
  | clientError
  | other
  deriving DecidableEq, Repr

inductive CloudwatchCall (Threshold : Type) where
  | putMetricData (nameSpace : PyStr) (metricData : List MetricDatum)
  | putMetricAlarm (alarm : MetricAlarm Threshold)
  deriving DecidableEq, Repr

/-- A step of the command. -/
inductive CountStep (Threshold : Type) where
  | raise (e : CountExc)
  /-- `self.stdout.write` -/
  | write (text : PyStr)
  | print (text : PyStr)
  | recordCustomMetric (name : PyStr) (value : Nat)
  | call (c : CloudwatchCall Threshold)
  deriving DecidableEq, Repr

structure CountOptions where
  newrelic : Bool
  cloudwatch : Bool

/-- The order in which the query finds the rows, whether the library `newrelic` is installed, and
the outcome of the calls of CloudWatch, which are counted from the start. -/
structure CountEnv where
  plan : QueryPlan
  newrelic : Bool
  outcome : Nat → Except CountExc Unit

section Steps

variable {Threshold : Type}

/-! ## The query -/

def isUnretired (s : Submission) : Bool :=
  !s.retired

/-- `values('queue_name').annotate(queue_count=Count('queue_name')).order_by('-queue_count')` of
the rows with the names. -/
def groupByQueueName (names : List PyStr) : List QueueCount :=
  (names.dedup.map (fun name => ⟨name, names.count name⟩)).insertionSort
    (fun p q => q.queueCount ≤ p.queueCount)

def queueCounts (plan : QueryPlan) (t : Table) : List QueueCount :=
  groupByQueueName ((plan.order (t.rows.filter isUnretired)).map Submission.queueName)

/-! ## The steps of the command -/

/-- `"{:<width}".format(s)` -/
def ljust (width : Nat) (s : PyStr) : PyStr :=
  s ++ List.replicate (width - s.length) (ch ' ')

def prettyPrintQueues (counts : List QueueCount) : List (CountStep Threshold) :=
  counts.map (fun queue =>
    .write (ljust 30 queue.queueName ++ py " " ++ ljust 10 (PyStr.ofNat queue.queueCount)))

def sendNrMetrics (installed : Bool) (counts : List QueueCount) : List (CountStep Threshold) :=
  if installed then
    counts.map (fun queue => .recordCustomMetric
      (py "Custom/XQueueLength/" ++ queue.queueName ++ py "[submissions]") queue.queueCount)
  else [.raise .commandError]

def metricName : PyStr :=
  py "queue_length"

def queueDimensions (queueName : PyStr) : List Dimension :=
  [⟨py "queue", queueName⟩]

def CloudwatchConfiguration.nameSpace (cw : CloudwatchConfiguration Threshold) : PyStr :=
  py "xqueue/" ++ cw.environment ++ py "-" ++ cw.deployment

/-- An entry of `metric_data`. -/
def metricDatum (queue : QueueCount) : MetricDatum where
  metricName := metricName
  dimensions := queueDimensions queue.queueName
  value := queue.queueCount

def CloudwatchConfiguration.thresholdFor (cw : CloudwatchConfiguration Threshold)
    (queueName : PyStr) : Threshold :=
  match cw.thresholds.lookup queueName with
  | some threshold => threshold
  | none => cw.defaultThreshold

def CloudwatchConfiguration.alarmName (cw : CloudwatchConfiguration Threshold)
    (queueName : PyStr) : PyStr :=
  cw.environment ++ py "-" ++ cw.deployment ++ py " " ++ queueName ++
    py " xqueue queue length over threshold"

def CloudwatchConfiguration.alarm (cw : CloudwatchConfiguration Threshold) (queueName : PyStr) :
    MetricAlarm Threshold where
  alarmName := cw.alarmName queueName
  alarmDescription := cw.alarmName queueName
  nameSpace := cw.nameSpace
  metricName := metricName
  dimensions := queueDimensions queueName
  period := 600
  evaluationPeriods := 6
  treatMissingData := py "notBreaching"
  threshold := cw.thresholdFor queueName
  comparisonOperator := py "GreaterThanThreshold"
  statistic := py "Maximum"
  insufficientDataActions := cw.snsArns
  okActions := cw.snsArns
  alarmActions := cw.snsArns

/-- The body of the loop over the tuples of `grouper`, which may hold fill values. -/
def sendQueues (cw : CloudwatchConfiguration Threshold) (tuple : List (Option QueueCount)) :
    List (CountStep Threshold) :=
  let queues := tuple.reduceOption
  let metricData := queues.map metricDatum
  (if 0 < metricData.length then [.call (.putMetricData cw.nameSpace metricData)] else []) ++
    queues.flatMap (fun queue =>
      [.print (py "Creating or updating alarm \"" ++ cw.alarmName queue.queueName ++ py "\""),
        .call (.putMetricAlarm (cw.alarm queue.queueName))])

def sendCloudwatchMetrics (cw : CloudwatchConfiguration Threshold) (counts : List QueueCount) :
    List (CountStep Threshold) :=
  (grouper counts 10).flatMap (sendQueues cw)

/-- `handle`; the query runs once, when the lines are written. -/
def countSteps (cw : CloudwatchConfiguration Threshold) (env : CountEnv) (options : CountOptions)
    (t : Table) : List (CountStep Threshold) :=
  let counts := queueCounts env.plan t
  prettyPrintQueues counts ++
    (if options.newrelic then sendNrMetrics env.newrelic counts else []) ++
    (if options.cloudwatch then sendCloudwatchMetrics cw counts else [])

/-! ## Performing the steps -/

/-- `CwBotoWrapper.max_tries` -/
def maxTries : Nat :=
  5

/-- `@backoff.on_exception(backoff.expo, ClientError, max_tries=tries)`: the attempts, the number
of the next one, and the result of the last. -/
def callWithBackoff (outcome : Nat → Except CountExc Unit) (step : CountStep Threshold) :
    (tries k : Nat) → List (CountStep Threshold) × Nat × Except CountExc Unit
  | 0, k => ([], k, .error .clientError)
  | tries + 1, k =>
      match outcome k with
      | .error .clientError =>
          let (attempts, k, result) := callWithBackoff outcome step tries (k + 1)
          (step :: attempts, k, result)
      | result => ([step], k + 1, result)

/-- The steps in order, up to the first exception. -/
def performEach (outcome : Nat → Except CountExc Unit) :
    (k : Nat) → List (CountStep Threshold) → List (CountStep Threshold) × Except CountExc Unit
  | _, [] => ([], .ok ())
  | _, .raise e :: _ => ([], .error e)
  | k, .call c :: steps =>
      match callWithBackoff outcome (.call c) maxTries k with
      | (attempts, _, .error e) => (attempts, .error e)
      | (attempts, k, .ok ()) =>
          let (performed, result) := performEach outcome k steps
          (attempts ++ performed, result)
  | k, step :: steps =>
      let (performed, result) := performEach outcome k steps
      (step :: performed, result)

/-- `count_queued_submissions`: what it performs, and how it ends. -/
def countQueuedSubmissions (cw : CloudwatchConfiguration Threshold) (env : CountEnv)
    (options : CountOptions) (t : Table) : List (CountStep Threshold) × Except CountExc Unit :=
  performEach env.outcome 0 (countSteps cw env options t)

end Steps

end Xqueue
