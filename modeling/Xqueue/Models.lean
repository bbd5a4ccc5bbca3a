import Mathlib.Data.List.MinMax
import Xqueue.Library.KeyedTable
import Xqueue.Library.DateTime

/-!
# Models — the `Submission` table

This file embeds `submission_queue/models.py`:

* `Submission` : a row with every column of the model;
* `Table` : the rows under their auto-increment `id`, so that two rows never share one;
* `save` : `Model.save()` of an instance that was read earlier;
* `timeFilter`, `getQueueLength`, `getSingleUnretiredSubmission`, `getSingleUnpushedSubmission` :
  the queries of `SubmissionManager`.

The settings and the exceptions that the other modules share are here as well.
-/

namespace Xqueue

open Library

def charfieldLenLarge : Nat :=
  1024

/-- What a statement of the program can raise. -/
inductive PyExc where
  | typeError
  | keyError
  | valueError
  | overflowError
  | attributeError
  | recursionError
  | unicodeEncodeError
  | commandError
  | requestException
  | storageError
  | databaseError
  deriving DecidableEq, Repr

/-- The last id that the `AutoField` of a `Submission` takes. -/
def maxId : Nat :=
  2147483647

/-- What `dateparse.parse_datetime` makes of a text. -/
inductive ParsedDatetime where
  | notDatetime
  | invalid
  | naive (t : DateTime)
  | aware (t : DateTime)
  deriving DecidableEq

/-- The settings, and the library functions that the code calls as given. -/
structure Config where
  xqueues : List (PyStr × Option PyStr)
  maxNumberOfFailures : Nat
  /-- `timedelta(minutes=settings.SUBMISSION_PROCESSING_DELAY)`, in microseconds. -/
  submissionProcessingDelay : Int
  atomicRequests : Bool
  md5 : PyStr → PyStr
  isPrintable : PyChar → Bool
  parseDatetime : PyStr → ParsedDatetime

/-- `queue_name in settings.XQUEUES` -/
def Config.hasQueue (cfg : Config) (queueName : PyStr) : Bool :=
  cfg.xqueues.any (fun q => q.1 == queueName)

structure Submission where
  id : Nat
  requesterId : PyStr
  lmsCallbackUrl : PyStr
  queueName : PyStr
  xqueueHeader : PyStr
  xqueueBody : PyStr
  s3Keys : PyStr
  s3Urls : PyStr
  arrivalTime : DateTime
  pullTime : Option DateTime
  pushTime : Option DateTime
  returnTime : Option DateTime
  graderId : PyStr
  pullkey : PyStr
  graderReply : PyStr
  numFailures : Nat
  lmsAck : Bool
  retired : Bool
  deriving DecidableEq

abbrev Table : Type :=
  KeyedTable Submission Submission.id

/-! ## `Model.save()` -/

/-- The row a save leaves.  `arrival_time` has `auto_now_add`, so it is set anew when the
row is gone and the instance is inserted again. -/
def asStored (now : DateTime) (c : Submission) (t : Table) : Submission :=
  if (t.get? c.id).isSome then c else { c with arrivalTime := now }

/-- Write every column of the instance. -/
def save (now : DateTime) (c : Submission) (t : Table) : Table :=
  t.put (asStored now c t)

variable {cfg : Config} {now : DateTime} {c r s : Submission} {t : Table} {k : Nat}

theorem id_asStored : (asStored now c t).id = c.id := by
  by_cases h : (t.get? c.id).isSome <;> simp [asStored, h]

theorem asStored_of_get? (h : t.get? c.id = some r) : asStored now c t = c := by
  simp [asStored, h]

/-- A save changes nothing of the instance but possibly `arrival_time`. -/
theorem asStored_cases (now : DateTime) (c : Submission) (t : Table) :
    asStored now c t = c ∨ asStored now c t = { c with arrivalTime := now } := by
  by_cases h : (t.get? c.id).isSome <;> simp [asStored, h]

theorem mem_save : r ∈ save now c t ↔ r = asStored now c t ∨ (r ∈ t ∧ r.id ≠ c.id) := by
  rw [save, KeyedTable.mem_put, id_asStored]

/-- The rows after the save of an instance of a stored row. -/
theorem mem_save_of_mem (hs : s ∈ t) (hid : c.id = s.id) :
    r ∈ save now c t ↔ r = c ∨ (r ∈ t ∧ r.id ≠ s.id) := by
  have hget : t.get? c.id = some s := by
    rw [hid]
    exact KeyedTable.get?_of_mem hs
  rw [mem_save, asStored_of_get? hget, hid]

/-- The save of an instance of a stored row is a write in place. -/
theorem save_of_mem (now : DateTime) (hs : s ∈ t) (hid : c.id = s.id) : save now c t = t.put c := by
  have hget : t.get? c.id = some s := KeyedTable.get?_eq_some_iff.2 ⟨hs, hid.symm⟩
  rw [save, asStored_of_get? hget]

/-- Of two saves of instances of a stored row the second counts. -/
theorem save_save {d : Submission} {now' : DateTime} (hs : s ∈ t) (hc : c.id = s.id) (hd : d.id = s.id) :
    save now' d (save now c t) = save now' d t := by
  have hmem : c ∈ save now c t := (mem_save_of_mem hs hc).2 (Or.inl rfl)
  calc
    save now' d (save now c t)
        = (save now c t).put d := save_of_mem now' hmem (hd.trans hc.symm)
    _ = (t.put c).put d := by rw [save_of_mem now hs hc]
    _ = t.put d := KeyedTable.put_put hs hc hd
    _ = save now' d t := (save_of_mem now' hs hd).symm

/-- A save leaves the table as it was exactly if it writes the row as it is stored. -/
theorem save_eq_self_iff (hs : s ∈ t) (hid : c.id = s.id) : save now c t = t ↔ c = s := by
  constructor
  · intro h
    have hc : c ∈ t := by
      rw [← h]
      exact (mem_save_of_mem hs hid).2 (Or.inl rfl)
    exact KeyedTable.eq_of_key_eq hc hs hid
  · rintro rfl
    rw [save, asStored_of_get? (KeyedTable.get?_of_mem hs), KeyedTable.put_of_mem hs]

/-- The rows that meet a condition, when one of them is saved as one that does not. -/
theorem filter_save_perm {p p' : Submission → Bool} (hs : s ∈ t) (hid : c.id = s.id)
    (hp : p s = true) (hc : p' c = false) (hother : ∀ r ∈ t, r.id ≠ s.id → p' r = p r) :
    (t.rows.filter p).Perm (s :: (save now c t).rows.filter p') := by
  have hnodup : ∀ u : Table, u.rows.Nodup := fun u => u.nodup.of_map
  have hsaved : ∀ r, r ∈ (save now c t).rows.filter p' ↔ (r ∈ t ∧ r.id ≠ s.id) ∧ p' r = true := by
    intro r
    rw [List.mem_filter, ← KeyedTable.mem_rows, mem_save_of_mem hs hid]
    constructor
    · rintro ⟨rfl | hr, hp'⟩
      · rw [hc] at hp'
        cases hp'
      · exact ⟨hr, hp'⟩
    · rintro ⟨hr, hp'⟩
      exact ⟨Or.inr hr, hp'⟩
  have hnotin : s ∉ (save now c t).rows.filter p' := fun hmem => ((hsaved s).1 hmem).1.2 rfl
  refine (List.perm_ext_iff_of_nodup ((hnodup t).filter p)
    (List.nodup_cons.2 ⟨hnotin, (hnodup _).filter p'⟩)).2 ?_
  intro r
  rw [List.mem_cons, hsaved, List.mem_filter, ← KeyedTable.mem_rows]
  constructor
  · rintro ⟨hr, hpr⟩
    by_cases hrs : r.id = s.id
    · exact Or.inl (KeyedTable.eq_of_key_eq hr hs hrs)
    · exact Or.inr ⟨⟨hr, hrs⟩, by rw [hother r hr hrs, hpr]⟩
  · rintro (rfl | ⟨⟨hr, hrs⟩, hpr⟩)
    · exact ⟨hs, hp⟩
    · exact ⟨hr, by rw [← hother r hr hrs, hpr]⟩

/-! ## Queries -/

/-- The order in which the database returns rows that a query leaves unordered. -/
structure QueryPlan where
  order : List Submission → List Submission
  perm : ∀ rows, (order rows).Perm rows

/-- Rows in the order in which they were inserted. -/
def QueryPlan.insertion : QueryPlan where
  order := id
  perm := fun _ => List.Perm.refl _

theorem QueryPlan.mem_order {plan : QueryPlan} {rows : List Submission} :
    r ∈ plan.order rows ↔ r ∈ rows :=
  (plan.perm rows).mem_iff

/-- The rows a query returns are stored, and under distinct ids. -/
theorem nodup_order {plan : QueryPlan} {p : Submission → Bool} :
    ((plan.order (t.rows.filter p)).map Submission.id).Nodup := by
  have hperm := (plan.perm (t.rows.filter p)).map Submission.id
  exact hperm.nodup_iff.2 (t.nodup.sublist (List.filter_sublist.map _))

theorem mem_order_filter {plan : QueryPlan} {p : Submission → Bool} :
    s ∈ plan.order (t.rows.filter p) ↔ s ∈ t ∧ p s = true := by
  rw [QueryPlan.mem_order, List.mem_filter, KeyedTable.mem_rows]

/-- `queryset.order_by('arrival_time').first()`; `plan` decides between equal times. -/
def firstByArrivalTime (plan : QueryPlan) (rows : List Submission) : Option Submission :=
  (plan.order rows).argmin Submission.arrivalTime

theorem firstByArrivalTime_eq_none {plan : QueryPlan} {rows : List Submission} :
    firstByArrivalTime plan rows = none ↔ rows = [] := by
  rw [firstByArrivalTime, List.argmin_eq_none]
  -- an order of the rows is empty exactly when they are
  constructor
  · intro h
    exact List.Perm.nil_eq (h ▸ plan.perm rows) |>.symm
  · rintro rfl
    exact List.perm_nil.1 (plan.perm [])

theorem mem_of_firstByArrivalTime {plan : QueryPlan} {rows : List Submission}
    (h : firstByArrivalTime plan rows = some s) : s ∈ rows :=
  QueryPlan.mem_order.1 (List.argmin_mem h)

theorem firstByArrivalTime_le {plan : QueryPlan} {rows : List Submission}
    (h : firstByArrivalTime plan rows = some s) (hr : r ∈ rows) :
    s.arrivalTime ≤ r.arrivalTime :=
  List.le_of_mem_argmin (QueryPlan.mem_order.2 hr) h

inductive TimeField where
  | pushTime
  | pullTime
  deriving DecidableEq, Repr

def Submission.time (s : Submission) : TimeField → Option DateTime
  | .pushTime => s.pushTime
  | .pullTime => s.pullTime

/-- `time_filter`: null, or at most `SUBMISSION_PROCESSING_DELAY` before now. -/
def timeFilter (cfg : Config) (now : DateTime) (timeField : TimeField) (s : Submission) : Bool :=
  match s.time timeField with
  -- `Q(..__isnull=True)`: not pulled, or not pushed, so far
  | none => true
  | some t => decide ((t.micros : Int) ≤ now.micros - cfg.submissionProcessingDelay)

/-- The rows of the queue that the time filter leaves and that are not retired. -/
def isAvailable (cfg : Config) (now : DateTime) (timeField : TimeField) (queueName : PyStr)
    (s : Submission) : Bool :=
  timeFilter cfg now timeField s && s.queueName == queueName && !s.retired

def getQueueLength (cfg : Config) (now : DateTime) (queueName : PyStr) (t : Table) : Nat :=
  t.rows.countP (isAvailable cfg now .pullTime queueName)

def getSingleSubmission (cfg : Config) (timeField : TimeField) (plan : QueryPlan) (now : DateTime)
    (queueName : PyStr) (t : Table) : Option Submission :=
  firstByArrivalTime plan (t.rows.filter (isAvailable cfg now timeField queueName))

def getSingleUnretiredSubmission (cfg : Config) (plan : QueryPlan) (now : DateTime)
    (queueName : PyStr) (t : Table) : Option Submission :=
  getSingleSubmission cfg .pullTime plan now queueName t

def getSingleUnpushedSubmission (cfg : Config) (plan : QueryPlan) (now : DateTime)
    (queueName : PyStr) (t : Table) : Option Submission :=
  getSingleSubmission cfg .pushTime plan now queueName t

variable {timeField : TimeField} {plan : QueryPlan} {queueName : PyStr}

theorem isAvailable_iff : isAvailable cfg now timeField queueName s = true ↔
    timeFilter cfg now timeField s = true ∧ s.queueName = queueName ∧ s.retired = false := by
  simp [isAvailable, and_assoc]

theorem getSingleSubmission_eq_none :
    getSingleSubmission cfg timeField plan now queueName t = none ↔
      ∀ r ∈ t, isAvailable cfg now timeField queueName r = false := by
  simp [getSingleSubmission, firstByArrivalTime_eq_none, List.filter_eq_nil_iff, KeyedTable.mem_rows]

theorem mem_of_getSingleSubmission
    (h : getSingleSubmission cfg timeField plan now queueName t = some s) : s ∈ t :=
  (List.mem_filter.1 (mem_of_firstByArrivalTime h)).1

theorem isAvailable_of_getSingleSubmission
    (h : getSingleSubmission cfg timeField plan now queueName t = some s) :
    isAvailable cfg now timeField queueName s = true :=
  (List.mem_filter.1 (mem_of_firstByArrivalTime h)).2

theorem retired_of_getSingleSubmission
    (h : getSingleSubmission cfg timeField plan now queueName t = some s) : s.retired = false :=
  (isAvailable_iff.1 (isAvailable_of_getSingleSubmission h)).2.2

/-- The row chosen arrived no later than any other available row. -/
theorem getSingleSubmission_le
    (h : getSingleSubmission cfg timeField plan now queueName t = some s) (hr : r ∈ t)
    (hav : isAvailable cfg now timeField queueName r = true) : s.arrivalTime ≤ r.arrivalTime :=
  firstByArrivalTime_le h (List.mem_filter.2 ⟨hr, hav⟩)

end Xqueue
