import Xqueue.Atomic
import Xqueue.Deployment
import Xqueue.Interleaved

/-!
# Retirement — when a submission is done with

A retired row is out of the queues: no grader is given it and no command looks at it.  Two
questions about the flag are settled here:

* `retirement_final_iff` : a retired row stays retired, for one operation after another,
  unless a late result for it fails to reach the LMS (`Reopens`);
* `finished_rows_retired` : under every interleaving, a row that the LMS has acknowledged or
  that has failed too often is retired.
-/

namespace Xqueue

open Library
open Library.System

/-! ## Retired rows, one operation after another -/

/-- Every retired row of `t` is still there and retired in `u`. -/
def RetiredKept (t u : Table) : Prop :=
  ∀ r ∈ t, r.retired = true → ∃ r' ∈ u, r'.id = r.id ∧ r'.retired = true

instance (t u : Table) : Decidable (RetiredKept t u) :=
  inferInstanceAs (Decidable (∀ r ∈ t.rows, r.retired = true →
    ∃ r' ∈ u.rows, r'.id = r.id ∧ r'.retired = true))

theorem RetiredKept.refl (t : Table) : RetiredKept t t :=
  fun r hr hret => ⟨r, hr, rfl, hret⟩

theorem RetiredKept.trans {t u v : Table} (h₁ : RetiredKept t u) (h₂ : RetiredKept u v) :
    RetiredKept t v := by
  intro r hr hret
  rcases h₁ r hr hret with ⟨r', hr', hid, hret'⟩
  rcases h₂ r' hr' hret' with ⟨r'', hr'', hid', hret''⟩
  exact ⟨r'', hr'', hid'.trans hid, hret''⟩

/-- No grader can be given the row: neither query of the manager selects it. -/
def NeverSelected (cfg : Config) (t : Table) (id : Nat) : Prop :=
  ∀ plan now queueName s,
    getSingleUnretiredSubmission cfg plan now queueName t = some s ∨
      getSingleUnpushedSubmission cfg plan now queueName t = some s → s.id ≠ id

/-- A result passes the key check of a retired row, all five POSTs to the LMS fail without an
exception, and the failure is still within the limit. -/
def Reopens (cfg : Config) (t : Table) : Event → Prop
  | .putResult env request =>
      ∃ s graderReply, putResultChecks request t = .ok (s, graderReply) ∧ s.retired = true ∧
        (∃ url, lmsCallbackUrl s.xqueueHeader = .ok url) ∧
        (∀ k < 5, ∃ message, httpPost (env.lms k) = .ok (false, message)) ∧
        s.numFailures + 1 ≤ cfg.maxNumberOfFailures
  | _ => False

variable {cfg : Config} {t u : Table} {e : Event}

theorem neverSelected_of_retired {r : Submission} (hr : r ∈ t) (hret : r.retired = true) :
    NeverSelected cfg t r.id := by
  rintro plan now queueName s hsel hid
  have hs : s ∈ t ∧ s.retired = false := by
    rcases hsel with h | h
    · exact ⟨mem_of_getSingleSubmission h, retired_of_getSingleSubmission h⟩
    · exact ⟨mem_of_getSingleSubmission h, retired_of_getSingleSubmission h⟩
  rw [KeyedTable.eq_of_key_eq hs.1 hr hid, hret] at hs
  exact absurd hs.2 (by simp)

/-- The only work on a retired row is a result, and it keeps the flag unless it reopens. -/
theorem retired_of_performs {task : Task} {env : WorkEnv} {s c : Submission} {os : List Output}
    (hok : ¬ Reopens cfg t e) (hp : e.Performs cfg t task env s)
    (hwork : task.work cfg env s = (os, .ok c)) (hret : s.retired = true) : c.retired = true := by
  rcases performs_cases hp with hopen | ⟨request, graderReply, rfl, rfl, hchecks⟩
  · rw [hopen] at hret
    cases hret
  · rcases putResult_eq_ok.1 hwork with ⟨acked, hout, -, rfl⟩
    cases acked with
    | true => rfl
    | false =>
        rcases postGradeToLms_eq_false.1 hout with ⟨hurl, hfail⟩
        have hlimit : ¬ s.numFailures + 1 ≤ cfg.maxNumberOfFailures :=
          fun hle => hok ⟨s, graderReply, hchecks, hret, hurl, hfail, hle⟩
        simpa [Submission.returned] using Nat.lt_of_not_le hlimit

theorem retiredKept_moved {u' : Table} {o : List Output} (hok : ¬ Reopens cfg t e)
    (hm : Moved cfg (e.Performs cfg t) u u' o) : RetiredKept u u' := by
  cases hm with
  | raised hs hp hwork => exact RetiredKept.refl u
  | undone => exact RetiredKept.refl u
  | @saved task env s c os fetch now hs hp hwork =>
      intro r hr hret
      -- the row that was worked on, or another one
      by_cases hid : r.id = s.id
      · have : r = s := KeyedTable.eq_of_key_eq hr hs hid
        subst this
        exact ⟨c, (mem_save_worked hs hwork).2 (Or.inl rfl), id_of_work hwork,
          retired_of_performs hok hp hwork hret⟩
      · exact ⟨r, (mem_save_worked hs hwork).2 (Or.inr ⟨hr, hid⟩), rfl, hret⟩
  | superseded callback =>
      intro r hr hret
      exact ⟨r, mem_invalidate_of_not_isPrior hr (by simp [isPrior, hret]), rfl, hret⟩
  | inserted s3Urls s3Keys now _ _ _ =>
      intro r hr hret
      exact ⟨r, KeyedTable.mem_insert.2 (Or.inl hr), rfl, hret⟩

theorem retiredKept_of_not_reopens (hok : ¬ Reopens cfg t e) : RetiredKept t (e.run cfg t).1 :=
  event_invariant (I := fun _ u => RetiredKept t u) (RetiredKept.refl t)
    (fun _ _ _ _ hkept hm => hkept.trans (retiredKept_moved hok hm))

theorem not_retiredKept_of_reopens (h : Reopens cfg t e) : ¬ RetiredKept t (e.run cfg t).1 := by
  cases e with
  | putResult env request =>
      rcases h with ⟨s, graderReply, hchecks, hret, hurl, hfail, hlimit⟩
      rcases putResultChecks_eq_ok.1 hchecks with ⟨-, -, hs, -⟩
      have hout : (s.deliver env.lms graderReply).outcome = .ok false :=
        postGradeToLms_eq_false.2 ⟨hurl, hfail⟩
      have hwork : s.putResult cfg env request graderReply = (_, .ok _) :=
        putResult_eq_ok.2 ⟨false, hout, rfl, rfl⟩
      have htable : ((Event.putResult env request).run cfg t).1 =
          save env.now (s.returned cfg env.now graderReply false) t := by
        simp [Event.run, Ended.observed, putResult, hchecks, hwork, Work.finish]
      have hget : t.get? (s.returned cfg env.now graderReply false).id = some s :=
        KeyedTable.get?_of_mem hs
      intro hkept
      rcases hkept s hs hret with ⟨r, hr, hid, hrret⟩
      -- the only row with this id is the one just saved, and it is not retired
      rw [htable] at hr
      rcases mem_save.1 hr with rfl | ⟨-, hne⟩
      · rw [asStored_of_get? hget] at hrret
        simp [Submission.returned, Nat.not_lt.2 hlimit] at hrret
      · exact hne hid
  | _ => exact h.elim

/-- A step keeps every retired row retired exactly when it does not reopen one, and a run of
such steps keeps them retired throughout, out of reach of both selecting queries. -/
theorem retirement_final_iff (cfg : Config) :
    (∀ t e, RetiredKept t (e.run cfg t).1 ↔ ¬ Reopens cfg t e) ∧
    ∀ t es os u, Run (atomicSystem cfg) (fun t e => ¬ Reopens cfg t e) t es os u →
      RetiredKept t u ∧ ∀ r ∈ t, r.retired = true → NeverSelected cfg u r.id := by
  constructor
  · intro t e
    exact ⟨fun hkept hre => not_retiredKept_of_reopens hre hkept, retiredKept_of_not_reopens⟩
  · intro t es os u hrun
    have hkept : RetiredKept t u := by
      refine hrun.invariant (I := fun _ u => RetiredKept t u) (RetiredKept.refl t) ?_
      intro _ m e n o hkept hok hstep
      simp only [atomicSystem, Option.some.injEq] at hstep
      have := retiredKept_of_not_reopens hok
      rw [hstep] at this
      exact hkept.trans this
    refine ⟨hkept, ?_⟩
    intro r hr hret
    rcases hkept r hr hret with ⟨r', hr', hid, hret'⟩
    rw [← hid]
    exact neverSelected_of_retired hr' hret'

/-- A submission is pulled and then superseded by a resubmission. -/
def supersededWhilePulled : List Event :=
  [.submit pathStorage ⟨clockAt 0, clockAt 0, true⟩ (jobFor (py "/lms/1/problem")),
    .getSubmission ⟨.insertion, clockAt 1, clockAt 1, .timeout⟩ (pullRequest (py "test-pull")),
    .submit pathStorage ⟨clockAt 2, clockAt 2, true⟩ (jobFor (py "/lms/1/problem"))]

/-- The result of the pull arrives late, and the LMS answers every POST with a 500. -/
def lateResult : Event :=
  .putResult ⟨clockAt 3, clockAt 3, .timeout, fun _ => .response 500 []⟩
    (resultWith (py "eaaa7868ba5da1c0b5be0b5b4fc824e9"))

/-- The superseded submission is open again, and the next pull gets it. -/
theorem retired_submission_reopened :
    ¬ (∀ t, (atomicSystem devSettings).Reachable KeyedTable.empty t → ∀ e : Event,
        RetiredKept t (e.run devSettings t).1) ∧
      (getSingleUnretiredSubmission devSettings .insertion (clockAt 4) (py "test-pull")
        (tableAfter devSettings (supersededWhilePulled ++ [lateResult]) KeyedTable.empty)).map
          Submission.id = some 1 := by
  refine ⟨fun h => ?_, by decide +kernel⟩
  have := h _ (reachable_tableAfter devSettings supersededWhilePulled _) lateResult
  revert this
  decide +kernel

/-! ## Finished rows, under every interleaving -/

/-- A row that the LMS has acknowledged, or that has failed too often, is retired. -/
def FinishedRetired (cfg : Config) (s : Submission) : Prop :=
  s.lmsAck = true ∨ cfg.maxNumberOfFailures < s.numFailures → s.retired = true

/-- Work keeps finished instances retired; a failed notice opens a row again, so the rows of
`retire_failed_submissions` matter to be unretired when they are read. -/
theorem finishedRetired_of_work {task : Task} {env : WorkEnv} {s c : Submission} {os : List Output}
    (hs : FinishedRetired cfg s) (hopen : (∃ force, task = .retireFailed force) → s.retired = false)
    (hwork : task.work cfg env s = (os, .ok c)) : FinishedRetired cfg c := by
  cases writes_of_work hwork with
  | pulled request => exact hs
  | returned request graderReply acked hout =>
      intro h
      cases acked with
      | true => rfl
      -- not acknowledged: retired exactly when the limit is passed
      | false => simpa [Submission.returned] using h
  | graded worker graderReply acked hgrader hout => exact fun _ => rfl
  | ungraded worker message acked hgrader hout => exact fun _ => rfl
  | forced => exact fun _ => rfl
  | notified acked hout =>
      -- a row over the limit would have been retired before it was read
      have hret := hopen ⟨false, rfl⟩
      rintro (hack | hlimit)
      · exact hack
      · rw [hs (Or.inr hlimit)] at hret
        cases hret
  | retiredOld acked hout => exact fun _ => rfl

/-- The invariant of stored rows and of every instance that may still be saved. -/
def finishedRetired (cfg : Config) : RowProperty cfg where
  row := fun _ s => FinishedRetired cfg s
  held := fun _ task s =>
    FinishedRetired cfg s ∧ ((∃ force, task = .retireFailed force) → s.retired = false)
  worked := fun _ _ s => FinishedRetired cfg s
  row_append := fun h _ => h
  held_append := fun h _ => h
  worked_append := fun h _ => h
  read := by
    rintro os task s hs hread
    refine ⟨hs, ?_⟩
    rintro ⟨force, rfl⟩
    exact hread.1
  work := fun h hwork => finishedRetired_of_work h.1 h.2 hwork
  save := fun h _ => h
  retire := fun _ _ _ => rfl
  arrival := fun h _ => h
  inserted := by
    rintro os request valid callback - - s3Urls s3Keys now id - (hack | hlimit)
    · cases hack
    · simp [newSubmission] at hlimit

/-- In every state that any interleaving reaches, finished rows are retired. -/
theorem finished_rows_retired {st : State}
    (h : (interleavedSystem cfg).Reachable (State.start KeyedTable.empty) st) :
    ∀ r ∈ st.table,
      r.lmsAck = true ∨ cfg.maxNumberOfFailures < r.numFailures → r.retired = true := by
  rcases h with ⟨as, os, hrun⟩
  have hempty : ∀ r ∈ (KeyedTable.empty : Table), (finishedRetired cfg).row [] r :=
    fun r hr => absurd hr KeyedTable.not_mem_empty
  exact (RowProperty.kept_of_run hrun hempty).rows

/-- While one process waits for the LMS with a result, another reads the row to retire it;
the LMS acknowledges both, and the command saves its own instance last. -/
def retiredWhileReturned : List (Nat × Act) :=
  [(1, .submit (jobFor (py "/lms/1/problem"))),
    (1, .store pathStorage ⟨clockAt 0, clockAt 0, true⟩),
    (2, .getSubmission (pullRequest (py "test-pull")) .insertion (clockAt 1)),
    (2, .work ⟨clockAt 1, clockAt 1, .timeout, fun _ => .timeout⟩),
    (2, .save .timeout (clockAt 1)),
    (3, .putResult (resultWith (py "eaaa7868ba5da1c0b5be0b5b4fc824e9"))),
    (4, .retireOldSubmissions (py "test-pull") none .insertion),
    (3, .work ⟨clockAt 2, clockAt 2, .timeout, fun _ => .response 200 []⟩),
    (4, .work ⟨clockAt 2, clockAt 2, .timeout, fun _ => .response 200 []⟩),
    (3, .save .timeout (clockAt 3)),
    (4, .save .timeout (clockAt 3))]

theorem retiredWhileReturned_runs :
    ((interleavedSystem devSettings).exec (State.start KeyedTable.empty) retiredWhileReturned).isSome := by
  decide +kernel

/-- The row that both have saved. -/
theorem finished_rows_retired_after_race :
    let st := ((interleavedSystem devSettings).exec (State.start KeyedTable.empty)
      retiredWhileReturned).get retiredWhileReturned_runs
    (∀ r ∈ st.1.table, r.lmsAck = true ∨ devSettings.maxNumberOfFailures < r.numFailures →
      r.retired = true) ∧
      st.1.table.rows.map (fun r => (r.lmsAck, r.retired)) = [(true, true)] :=
  ⟨finished_rows_retired (run_get retiredWhileReturned_runs).reachable, by decide +kernel⟩

end Xqueue
