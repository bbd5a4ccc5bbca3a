import Xqueue.Consumer

/-!
# DeleteOldSubmissions — deletion in chunks

This file embeds `delete_old_submissions.py`:

* `deleteDate` : the checks of the options, and the cutoff;
* `timeSleep` : what `time.sleep` does not accept;
* `batchIds`, `deleteBatch` : the query and the DELETE of one round of the loop;
* `deleteLoop`, `deleteOldSubmissions` : the loop, among the inserts of other processes.
-/

namespace Xqueue

open Library

structure DeleteOptions where
  chunkSize : Int
  sleepBetween : PyFloat
  daysOld : Int

def isNegative : PyFloat → Bool
  | .nan => false
  | .infinity negative => negative
  | .finite negative mantissa _ => negative && mantissa ≠ 0

/-- The day count that `timedelta` takes at most. -/
def maxTimedeltaDays : Int :=
  999999999

/-- `datetime.now(ZoneInfo("UTC")) - timedelta(days=days_old)`, after the checks. -/
def deleteDate (now : DateTime) (options : DeleteOptions) : Except PyExc DateTime :=
  if options.chunkSize ≤ 0 then .error .commandError
  else if isNegative options.sleepBetween then .error .commandError
  else if options.daysOld < 0 then .error .commandError
  else if maxTimedeltaDays < options.daysOld then .error .overflowError
  else if now.micros < options.daysOld.toNat * 86400000000 then .error .overflowError
  else
    .ok ⟨now.micros - options.daysOld.toNat * 86400000000,
      Nat.lt_of_le_of_lt (Nat.sub_le _ _) now.inRange⟩

/-- `time.sleep(seconds)` counts nanoseconds, rounded to a double, in 64 bits. -/
def timeSleep (seconds : PyFloat) : Except PyExc Unit :=
  if isNegative seconds then .error .valueError
  else
    match seconds.scaled 1000000000 with
    | .nan => .error .valueError
    | .infinity _ => .error .overflowError
    | .finite _ mantissa exponent =>
        if mantissa * 2 ^ exponent.toNat < 2 ^ 63 * 2 ^ (-exponent).toNat then .ok ()
        else .error .overflowError

def isOld (deleteDate : DateTime) (s : Submission) : Bool :=
  s.arrivalTime ≤ deleteDate

/-- `old_submissions[:chunk_size].values_list('id', flat=True)` -/
def batchIds (plan : QueryPlan) (deleteDate : DateTime) (chunkSize : Nat) (t : Table) : List Nat :=
  ((plan.order (t.rows.filter (isOld deleteDate))).take chunkSize).map Submission.id

/-- `Submission.objects.filter(pk__in=ids).delete()` -/
def deleteBatch (ids : List Nat) (t : Table) : Table :=
  t.deleteWhere (fun s => s.id ∈ ids)

theorem mem_deleteBatch {ids : List Nat} {t : Table} {s : Submission} :
    s ∈ deleteBatch ids t ↔ s ∈ t ∧ s.id ∉ ids := by
  simp [deleteBatch, KeyedTable.mem_deleteWhere]

/-! ## The loop -/

/-- What happens around the queries of a run, which are counted from the start: the rows that
other processes commit before each of them, and the order in which it finds the rows. -/
structure DeleteEnv where
  arrivals : Nat → List Submission
  plan : Nat → QueryPlan

/-- The rows are inserted under ids of their own. -/
def commitRows (rows : List Submission) (t : Table) : Table :=
  rows.foldl (fun t s => t.insert (fun id => { s with id := id }) (fun _ => rfl)) t

/-- One transaction: the count taken before it, and the rows its DELETE has removed. -/
structure Batch where
  deletionsNow : Nat
  deleted : Nat
  sleeps : Bool
  deriving DecidableEq, Repr

/-- What the command leaves and logs, and the exception that ended its loop. -/
structure DeleteReport where
  table : Table
  totalDeletions : Nat
  batches : List Batch
  raised : Option PyExc

/-- `while old_submissions.exists()`, from the query `k` on, for at most `fuel` evaluations of the
condition.  Every use of the lazy querysets is a query of its own. -/
def deleteLoop (env : DeleteEnv) (deleteDate : DateTime) (chunkSize : Nat)
    (sleepBetween : PyFloat) : (fuel k totalDeletions : Nat) → Table → Option DeleteReport
  | 0, _, _, _ => none
  | fuel + 1, k, totalDeletions, t =>
      let t := commitRows (env.arrivals k) t
      if t.rows.any (isOld deleteDate) then
        -- `batch_ids.count()`
        let t := commitRows (env.arrivals (k + 1)) t
        let deletionsNow := min chunkSize (t.rows.countP (isOld deleteDate))
        -- `list(batch_ids)`, and the DELETE for these ids
        let t := commitRows (env.arrivals (k + 2)) t
        let ids := batchIds (env.plan (k + 2)) deleteDate chunkSize t
        let t := commitRows (env.arrivals (k + 3)) t
        let deleted := t.rows.countP (fun s => s.id ∈ ids)
        let t := deleteBatch ids t
        -- `old_submissions.exists()` before it sleeps
        let t := commitRows (env.arrivals (k + 4)) t
        let sleeps := t.rows.any (isOld deleteDate)
        let batch : Batch := ⟨deletionsNow, deleted, sleeps⟩
        match if sleeps then timeSleep sleepBetween else .ok () with
        | .error e => some ⟨t, totalDeletions + deletionsNow, [batch], some e⟩
        | .ok () =>
            match deleteLoop env deleteDate chunkSize sleepBetween fuel (k + 5)
                (totalDeletions + deletionsNow) t with
            | none => none
            | some report => some { report with batches := batch :: report.batches }
      else some ⟨t, totalDeletions, [], none⟩

/-- `delete_old_submissions`: the number of old submissions that it logs first, and its report. -/
def deleteOldSubmissions (env : DeleteEnv) (now : DateTime) (options : DeleteOptions) (fuel : Nat)
    (t : Table) : Except PyExc (Option (Nat × DeleteReport)) :=
  match deleteDate now options with
  | .error e => .error e
  | .ok date =>
      let t := commitRows (env.arrivals 0) t
      let totalOldSubmissions := t.rows.countP (isOld date)
      .ok ((deleteLoop env date options.chunkSize.toNat options.sleepBetween fuel 1 0 t).map
        fun report => (totalOldSubmissions, report))

end Xqueue
