import Xqueue.Deployment
import Xqueue.Operations

/-!
# RetirementCauses — why a row is retired

The flag `retired` does not say why it was set.  Between the LMS and the pull graders there are
three causes, and each of them can still be seen in the table:

* `Accounted` : the row is acknowledged, over the failure limit, or superseded by a later row;
* `accounted_submit`, `accounted_getSubmission`, `accounted_putResult` : each operation keeps it;
* `retired_rows_accounted` : it holds of every retired row, after every run of the three.
-/

namespace Xqueue

open Library
open Library.System

variable {cfg : Config} {t u : Table}

/-- A later row is stored under the same callback. -/
def Superseded (t : Table) (r : Submission) : Prop :=
  ∃ s ∈ t, r.id < s.id ∧ s.lmsCallbackUrl = r.lmsCallbackUrl

def Accounted (cfg : Config) (t : Table) (r : Submission) : Prop :=
  r.lmsAck = true ∨ cfg.maxNumberOfFailures < r.numFailures ∨ Superseded t r

/-- Every retired row is accounted for. -/
def AllAccounted (cfg : Config) (t : Table) : Prop :=
  ∀ r ∈ t, r.retired = true → Accounted cfg t r

/-- The operations of the LMS and of the pull graders.  A submit request has to return a reply:
one that raises an exception may have retired rows without a successor. -/
def isExchange (cfg : Config) (t : Table) : Event → Bool
  | .submit storage env request => (submit cfg storage env request 0 t).2.result.isOk
  | .getSubmission _ _ => true
  | .putResult _ _ => true
  | _ => false

/-- Rows stay stored under their ids and callbacks. -/
def RowsKept (t u : Table) : Prop :=
  ∀ s ∈ t, ∃ s' ∈ u, s'.id = s.id ∧ s'.lmsCallbackUrl = s.lmsCallbackUrl

theorem Superseded.kept {r : Submission} (h : Superseded t r) (hkept : RowsKept t u) :
    Superseded u r := by
  rcases h with ⟨s, hs, hlt, hcallback⟩
  rcases hkept s hs with ⟨s', hs', hid, hcallback'⟩
  exact ⟨s', hs', by omega, hcallback'.trans hcallback⟩

theorem Accounted.kept {r : Submission} (h : Accounted cfg t r) (hkept : RowsKept t u) :
    Accounted cfg u r := by
  rcases h with hack | hmax | hsup
  · exact Or.inl hack
  · exact Or.inr (Or.inl hmax)
  · exact Or.inr (Or.inr (hsup.kept hkept))

/-- A save of a stored row whose flag `retired` has a cause of its own, if it is up. -/
theorem accounted_save {now : DateTime} {s c : Submission} (h : AllAccounted cfg t) (hs : s ∈ t)
    (hid : c.id = s.id) (hcallback : c.lmsCallbackUrl = s.lmsCallbackUrl)
    (hc : c.retired = true → c.lmsAck = true ∨ cfg.maxNumberOfFailures < c.numFailures) :
    AllAccounted cfg (save now c t) := by
  have hkept : RowsKept t (save now c t) := by
    intro r hr
    by_cases hrid : r.id = s.id
    · rw [KeyedTable.eq_of_key_eq hr hs hrid]
      exact ⟨c, (mem_save_of_mem hs hid).2 (Or.inl rfl), hid, hcallback⟩
    · exact ⟨r, (mem_save_of_mem hs hid).2 (Or.inr ⟨hr, hrid⟩), rfl, rfl⟩
  intro r hr hretired
  rcases (mem_save_of_mem hs hid).1 hr with rfl | ⟨hr, -⟩
  · rcases hc hretired with hack | hmax
    · exact Or.inl hack
    · exact Or.inr (Or.inl hmax)
  · exact (h r hr hretired).kept hkept

/-- The new row supersedes the rows that the request has just retired. -/
theorem accounted_storedTable {request : HttpRequest} {valid : ValidRequest}
    {callback s3Urls s3Keys : PyStr} {now : DateTime} (h : AllAccounted cfg t) :
    AllAccounted cfg (storedTable request valid callback s3Urls s3Keys now t) := by
  have hkept : RowsKept t (storedTable request valid callback s3Urls s3Keys now t) := by
    intro s hs
    refine ⟨_, mem_storedTable.2 (Or.inl (mem_invalidate.2 ⟨s, hs, rfl⟩)), ?_⟩
    split
    · exact ⟨rfl, rfl⟩
    · exact ⟨rfl, rfl⟩
  intro r hr hretired
  rcases mem_storedTable.1 hr with hr | rfl
  · rcases mem_invalidate_cases hr with ⟨s, hs, hprior, rfl⟩ | ⟨hr, -⟩
    · -- retired by this request
      exact Or.inr (Or.inr ⟨_, mem_storedTable.2 (Or.inr rfl), t.fresh s hs,
        (isPrior_iff.1 hprior).1.symm⟩)
    · exact (h r hr hretired).kept hkept
  · -- the new row is not retired
    cases hretired

theorem accounted_submit {storage : Storage Nat} {env : SubmitEnv} {request : HttpRequest}
    (h : AllAccounted cfg t) (hok : (submit cfg storage env request 0 t).2.result.isOk = true) :
    AllAccounted cfg (submit cfg storage env request 0 t).2.table := by
  have hcases := submitted_submit cfg storage env request 0 t
  generalize submit cfg storage env request 0 t = ended at hcases hok
  cases hcases with
  | refused => exact h
  | failed st' e hchecks hcallback => cases hok
  | stored hchecks hcallback hup => exact accounted_storedTable h

/-- A pull leaves the flag down. -/
theorem accounted_getSubmission (env : PullEnv) (request : HttpRequest) (h : AllAccounted cfg t) :
    AllAccounted cfg (getSubmission cfg env request t).table := by
  have hcases := pulled_getSubmission cfg env request t
  generalize getSubmission cfg env request t = ended at hcases
  cases hcases with
  | refused hchecks => exact h
  | empty hchecks hget => exact h
  | @served queueName s hchecks hget =>
      have hopen : s.retired = false := retired_of_getSingleSubmission hget
      have hsave : AllAccounted cfg (save env.pullTime (s.pulled cfg request env.pullTime) t) := by
        refine accounted_save h (mem_of_getSingleSubmission hget) rfl rfl ?_
        intro hretired
        exact absurd (hopen.symm.trans hretired) (by simp)
      unfold servePull
      split
      · exact hsave
      · -- an exception of the reply, which may undo the save
        split
        · exact h
        · exact hsave

/-- A result sets the flag anew, and only with a cause. -/
theorem accounted_putResult (env : WorkEnv) (request : HttpRequest) (h : AllAccounted cfg t) :
    AllAccounted cfg (putResult cfg env request t).table := by
  have hcases := returned_putResult cfg env request t
  generalize putResult cfg env request t = ended at hcases
  cases hcases with
  | refused hchecks => exact h
  | raised hchecks hout => exact h
  | @saved s graderReply acked hchecks hout =>
      rcases putResultChecks_eq_ok.1 hchecks with ⟨-, -, hs, -⟩
      refine accounted_save h hs rfl rfl ?_
      intro hretired
      simpa [Submission.returned] using hretired

theorem accounted_event {e : Event} (h : AllAccounted cfg t) (hok : isExchange cfg t e = true) :
    AllAccounted cfg (e.run cfg t).1 := by
  cases e with
  | submit storage env request => exact accounted_submit h hok
  | getSubmission env request => exact accounted_getSubmission env request h
  | putResult env request => exact accounted_putResult env request h
  | _ => cases hok

/-- After every run of completed submits, pulls and results, every retired row is acknowledged,
over the failure limit, or superseded by a later row with its callback. -/
theorem retired_rows_accounted {es : List Event} {os : List Output}
    (h : Run (atomicSystem cfg) (fun t e => isExchange cfg t e = true) KeyedTable.empty es os t) :
    ∀ r ∈ t, r.retired = true → r.lmsAck = true ∨ cfg.maxNumberOfFailures < r.numFailures ∨
      ∃ s ∈ t, r.id < s.id ∧ s.lmsCallbackUrl = r.lmsCallbackUrl := by
  have hempty : AllAccounted cfg (KeyedTable.empty : Table) :=
    fun r hr => absurd hr KeyedTable.not_mem_empty
  have hall : AllAccounted cfg t := by
    refine h.invariant (I := fun _ t => AllAccounted cfg t) hempty ?_
    intro os t e u o hI hok hstep
    simp only [atomicSystem, Option.some.injEq] at hstep
    have := accounted_event hI hok
    rwa [hstep] at this
  exact hall

/-- A submission is pulled and superseded; the result for it arrives late, after one with a wrong
key, and is acknowledged. -/
def lateExchange : List Event :=
  let acked := fun _ => HttpResult.response 200 []
  [.submit pathStorage ⟨clockAt 0, clockAt 0, true⟩ (jobFor (py "/lms/1/problem")),
    .getSubmission ⟨.insertion, clockAt 1, clockAt 1, .timeout⟩ (pullRequest (py "test-pull")),
    .submit pathStorage ⟨clockAt 2, clockAt 2, true⟩ (jobFor (py "/lms/1/problem")),
    .putResult ⟨clockAt 3, clockAt 3, .timeout, acked⟩ (resultWith (py "guess")),
    .submit pathStorage ⟨clockAt 4, clockAt 4, true⟩ (jobFor (py "/lms/1/problem")),
    .putResult ⟨clockAt 5, clockAt 5, .timeout, acked⟩
      (resultWith (py "eaaa7868ba5da1c0b5be0b5b4fc824e9"))]

theorem lateExchange_runs : ((atomicSystem devSettings).execWhile (isExchange devSettings)
    KeyedTable.empty lateExchange).isSome := by
  decide +kernel

/-- The first row is acknowledged, and the second one superseded by the third. -/
theorem retired_rows_accounted_lateExchange :
    let t := (((atomicSystem devSettings).execWhile (isExchange devSettings) KeyedTable.empty
      lateExchange).get lateExchange_runs).1
    (∀ r ∈ t, r.retired = true → r.lmsAck = true ∨ devSettings.maxNumberOfFailures < r.numFailures ∨
      ∃ s ∈ t, r.id < s.id ∧ s.lmsCallbackUrl = r.lmsCallbackUrl) ∧
      t.rows.map (fun r => (r.retired, r.lmsAck)) = [(true, true), (true, false), (false, false)] :=
  ⟨retired_rows_accounted (run_get_while lateExchange_runs), by decide +kernel⟩

end Xqueue
