import Xqueue.Consumer

/-!
# RetireSubmissions — the two retiring commands

This file embeds `retire_failed_submissions.py` and `retire_old_submissions.py`.  Both walk
over the rows of a query, tell the LMS about each, and save it:

* `saveEach` : the loop, which an exception ends;
* `retireFailedSubmissions` : one pass for each named queue, or one over all queues;
* `retireOldSubmissions` : one pass over a queue.

The notices go by row: `lms id k` is how the `k`-th POST for the row `id` ends in a pass.
-/

namespace Xqueue

open Library

/-- Work on the rows one after the other and save each. -/
def saveEach (work : Submission → Work) (now : DateTime) : List Submission → Table → Ended Unit
  | [], t => ⟨t, [], .ok ()⟩
  | s :: rows, t =>
      let ended := (work s).finish now t
      match ended.result with
      -- the rows saved so far stay saved
      | .error e => ⟨ended.table, ended.outputs, .error e⟩
      | .ok () =>
          let rest := saveEach work now rows ended.table
          ⟨rest.table, ended.outputs ++ rest.outputs, rest.result⟩

section Loop

variable {work : Submission → Work} {f : Submission → Submission} {now : DateTime} {t : Table}
  {s : Submission} {rows done rest : List Submission}

/-- An exception leaves the table as the rows before it have left it. -/
theorem saveEach_of_error {e : PyExc} (h : (work s).2 = .error e) :
    saveEach work now (s :: rows) t = ⟨t, (work s).1, .error e⟩ := by
  rcases hw : work s with ⟨os, e' | c⟩
  · rw [hw] at h
    cases h
    simp [saveEach, hw, Work.finish]
  · rw [hw] at h
    cases h

theorem saveEach_of_ok {c : Submission} (h : (work s).2 = .ok c) :
    saveEach work now (s :: rows) t =
      ⟨(saveEach work now rows (save now c t)).table,
        (work s).1 ++ (saveEach work now rows (save now c t)).outputs,
        (saveEach work now rows (save now c t)).result⟩ := by
  rcases hw : work s with ⟨os, e | c'⟩
  · rw [hw] at h
    cases h
  · rw [hw] at h
    cases h
    simp [saveEach, hw, Work.finish]

/-- The loop over rows that it gets through, then over the others. -/
theorem saveEach_append (h : ∀ s ∈ done, ∃ c, (work s).2 = .ok c) :
    saveEach work now (done ++ rest) t =
      ⟨(saveEach work now rest (saveEach work now done t).table).table,
        (saveEach work now done t).outputs ++
          (saveEach work now rest (saveEach work now done t).table).outputs,
        (saveEach work now rest (saveEach work now done t).table).result⟩ := by
  induction done generalizing t with
  | nil => simp [saveEach]
  | cons s done ih =>
      rcases h s (by simp) with ⟨c, hc⟩
      have hdone : ∀ x ∈ done, ∃ c, (work x).2 = .ok c := fun x hx => h x (by simp [hx])
      rw [List.cons_append, saveEach_of_ok hc, saveEach_of_ok hc, ih hdone]
      simp

/-- A loop that gets through all its rows updates exactly these. -/
theorem saveEach_eq_updateWhere (hid : ∀ s, (f s).id = s.id) (hmem : ∀ s ∈ rows, s ∈ t)
    (hnodup : (rows.map Submission.id).Nodup) (hwork : ∀ s ∈ rows, (work s).2 = .ok (f s)) :
    saveEach work now rows t =
      ⟨t.updateWhere (fun s => decide (s ∈ rows)) f hid, rows.flatMap (fun s => (work s).1),
        .ok ()⟩ := by
  induction rows generalizing t with
  | nil =>
      rw [KeyedTable.updateWhere_of_forall_not (by simp)]
      rfl
  | cons s rows ih =>
      rcases List.nodup_cons.1 hnodup with ⟨hnotin, hnodup⟩
      have hs : s ∈ t := hmem s (by simp)
      have hother : ∀ x ∈ rows, x.id ≠ s.id := fun x hx heq => hnotin (heq ▸ List.mem_map_of_mem hx)
      have hsaved : save now (f s) t = t.updateWhere (fun r => decide (r = s)) f hid := by
        have hget : t.get? (f s).id = some s := by
          rw [hid]
          exact KeyedTable.get?_of_mem hs
        rw [save, asStored_of_get? hget, KeyedTable.put_eq_updateWhere hs]
      -- the rows still to come are as they were
      have hrest : ∀ x ∈ rows, x ∈ t.updateWhere (fun r => decide (r = s)) f hid := by
        intro x hx
        have hne : x ≠ s := fun heq => hother x hx (congrArg Submission.id heq)
        exact KeyedTable.mem_updateWhere.2 ⟨x, hmem x (by simp [hx]), by simp [hne]⟩
      have hfresh : ∀ r ∈ t, decide (r = s) = true → decide (f r ∈ rows) = false := by
        intro r _ hr
        rw [of_decide_eq_true hr]
        exact decide_eq_false fun hin => hother _ hin (hid s)
      rw [saveEach_of_ok (hwork s (by simp)), hsaved,
        ih hrest hnodup (fun x hx => hwork x (by simp [hx])),
        KeyedTable.updateWhere_updateWhere hfresh]
      refine congrArg (fun u => (⟨u, _, .ok ()⟩ : Ended Unit)) ?_
      exact KeyedTable.updateWhere_congr fun r _ => by simp [List.mem_cons, Bool.decide_or]

/-- The row that the work leaves, if it raises no exception. -/
def worked (work : Submission → Work) (s : Submission) : Submission :=
  match (work s).2 with
  | .ok c => c
  | .error _ => s

/-- A loop that completes has got through every row. -/
theorem ok_of_saveEach (h : (saveEach work now rows t).result = .ok ()) :
    ∀ s ∈ rows, (work s).2 = .ok (worked work s) := by
  induction rows generalizing t with
  | nil => simp
  | cons s rows ih =>
      cases hs : (work s).2 with
      | error e =>
          rw [saveEach_of_error hs] at h
          cases h
      | ok c =>
          rw [saveEach_of_ok hs] at h
          intro x hx
          rcases List.mem_cons.1 hx with rfl | hx
          · simp [worked, hs]
          · exact ih h x hx

/-- A list splits at its first row without the property. -/
theorem exists_split (p : Submission → Prop) (rows : List Submission) :
    ∃ done rest, rows = done ++ rest ∧ (∀ s ∈ done, p s) ∧ ∀ s ∈ rest.head?, ¬ p s := by
  induction rows with
  | nil => exact ⟨[], [], rfl, by simp, by simp⟩
  | cons s rows ih =>
      by_cases hs : p s
      · rcases ih with ⟨done, rest, rfl, hdone, hrest⟩
        exact ⟨s :: done, rest, rfl, by simpa [hs] using hdone, hrest⟩
      · exact ⟨[], s :: rows, rfl, by simp, by simpa using hs⟩

/-- A loop gets through its rows up to the first whose work raises an exception. -/
theorem saveEach_of_split (hid : ∀ s, (worked work s).id = s.id) (hmem : ∀ s ∈ done ++ rest, s ∈ t)
    (hnodup : ((done ++ rest).map Submission.id).Nodup)
    (hdone : ∀ s ∈ done, ∃ c, (work s).2 = .ok c)
    (hrest : ∀ s ∈ rest.head?, ¬ ∃ c, (work s).2 = .ok c) :
    (saveEach work now (done ++ rest) t).table =
        t.updateWhere (fun s => decide (s ∈ done)) (worked work) hid ∧
      (saveEach work now (done ++ rest) t).outputs =
        done.flatMap (fun s => (work s).1) ++ rest.head?.toList.flatMap (fun s => (work s).1) := by
  have hworked : ∀ s ∈ done, (work s).2 = .ok (worked work s) := by
    intro s hs
    rcases hdone s hs with ⟨c, hc⟩
    simp [worked, hc]
  have hfirst : saveEach work now done t =
      ⟨t.updateWhere (fun s => decide (s ∈ done)) (worked work) hid,
        done.flatMap (fun s => (work s).1), .ok ()⟩ :=
    saveEach_eq_updateWhere hid (fun s hs => hmem s (by simp [hs]))
      (hnodup.sublist ((List.sublist_append_left done rest).map _)) hworked
  rw [saveEach_append hdone, hfirst]
  cases rest with
  | nil => simp [saveEach]
  | cons x rest =>
      cases hx : (work x).2 with
      | ok c => exact absurd ⟨c, hx⟩ (hrest x rfl)
      | error e =>
          rw [saveEach_of_error hx]
          simp

end Loop

/-! ## retire_failed_submissions -/

/-- The rows of a scope (one queue, or all) that are not retired and have failed. -/
def isFailed (scope : Option PyStr) (s : Submission) : Bool :=
  !s.retired && s.numFailures ≠ 0 &&
    match scope with
    | none => true
    | some queueName => s.queueName == queueName

/-- The limit that the loop of `retire_submissions` tests. -/
def reachesLimit (cfg : Config) (s : Submission) : Bool :=
  cfg.maxNumberOfFailures ≤ s.numFailures

/-- The body of the loop: with `force` without a notice, otherwise only if the LMS has
acknowledged the notice. -/
def Submission.retireFailed (force : Bool) (lms : Nat → HttpResult) (s : Submission) : Work :=
  if force then ([], .ok { s with retired := true })
  else
    (s.deliverFailure lms).andAssign (fun success =>
      let s := { s with lmsAck := success }
      { s with retired := s.lmsAck })

/-- What the outside answers to a command, by pass and row. -/
structure CommandEnv where
  plan : Nat → QueryPlan
  now : DateTime
  lms : Nat → Nat → Nat → HttpResult

/-- The rows of one pass: the query, less the rows below the limit. -/
def failedSubmissions (cfg : Config) (plan : QueryPlan) (scope : Option PyStr) (t : Table) :
    List Submission :=
  (plan.order (t.rows.filter (isFailed scope))).filter (reachesLimit cfg)

theorem mem_failedSubmissions {cfg : Config} {plan : QueryPlan} {scope : Option PyStr} {t : Table}
    {s : Submission} : s ∈ failedSubmissions cfg plan scope t ↔
      s ∈ t ∧ isFailed scope s = true ∧ reachesLimit cfg s = true := by
  rw [failedSubmissions, List.mem_filter, mem_order_filter, and_assoc]

theorem nodup_failedSubmissions {cfg : Config} {plan : QueryPlan} {scope : Option PyStr} {t : Table} :
    ((failedSubmissions cfg plan scope t).map Submission.id).Nodup :=
  nodup_order.sublist (List.filter_sublist.map _)

theorem retired_of_isFailed {scope : Option PyStr} {s : Submission} (h : isFailed scope s = true) :
    s.retired = false := by
  simp only [isFailed, Bool.and_eq_true, Bool.not_eq_true'] at h
  exact h.1.1

/-- The passes of `handle`, each over the table that the one before has left. -/
def retirePasses (cfg : Config) (env : CommandEnv) (force : Bool) :
    (pass : Nat) → List (Option PyStr) → Table → Ended Unit
  | _, [], t => ⟨t, [], .ok ()⟩
  | pass, scope :: scopes, t =>
      let work := fun s : Submission => s.retireFailed force (env.lms pass s.id)
      let ended := saveEach work env.now (failedSubmissions cfg (env.plan pass) scope t) t
      match ended.result with
      | .error e => ⟨ended.table, ended.outputs, .error e⟩
      | .ok () =>
          let rest := retirePasses cfg env force (pass + 1) scopes ended.table
          ⟨rest.table, ended.outputs ++ rest.outputs, rest.result⟩

def scopesOf (queueNames : List PyStr) : List (Option PyStr) :=
  if queueNames = [] then [none] else queueNames.map some

/-- `retire_failed_submissions` -/
def retireFailedSubmissions (cfg : Config) (env : CommandEnv) (force : Bool)
    (queueNames : List PyStr) (t : Table) : Ended Unit :=
  retirePasses cfg env force 0 (scopesOf queueNames) t

/-! ## retire_old_submissions -/

/-- The body of the loop: retired whatever the LMS answers. -/
def Submission.retireOld (lms : Nat → HttpResult) (s : Submission) : Work :=
  let s := { s with retired := true }
  (s.deliverFailure lms).andAssign (fun success => { s with lmsAck := success })

/-- The bound on the arrival time that `--retire-before` sets; none when it is not given.
A naive time would be made aware with `timezone.utc`, which the library no longer has. -/
def retireBound (cfg : Config) : Option PyStr → Except PyExc (Option DateTime)
  | none => .ok none
  -- an empty option is falsy
  | some [] => .ok none
  | some text =>
      match cfg.parseDatetime text with
      | .notDatetime => .error .commandError
      | .invalid => .error .valueError
      | .naive _ => .error .attributeError
      | .aware bound => .ok (some bound)

/-- The unretired rows of the queue, up to the bound. -/
def isOldIn (queueName : PyStr) (bound : Option DateTime) (s : Submission) : Bool :=
  s.queueName == queueName && !s.retired &&
    match bound with
    | none => true
    | some bound => decide (s.arrivalTime ≤ bound)

theorem retired_of_isOldIn {queueName : PyStr} {bound : Option DateTime} {s : Submission}
    (h : isOldIn queueName bound s = true) : s.retired = false := by
  simp only [isOldIn, Bool.and_eq_true, Bool.not_eq_true'] at h
  exact h.1.2

/-- `retire_old_submissions` -/
def retireOldSubmissions (cfg : Config) (env : CommandEnv) (queueName : PyStr)
    (retireBefore : Option PyStr) (t : Table) : Ended Unit :=
  match retireBound cfg retireBefore with
  | .error e => ⟨t, [], .error e⟩
  | .ok bound =>
      saveEach (fun s => s.retireOld (env.lms 0 s.id)) env.now
        ((env.plan 0).order (t.rows.filter (isOldIn queueName bound))) t

end Xqueue
