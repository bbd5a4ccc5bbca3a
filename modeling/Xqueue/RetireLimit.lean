import Xqueue.RetireFailed

/-!
# RetireLimit — the limit of the two automatic retirements

`put_result` retires a row with more than `MAX_NUMBER_OF_FAILURES` failures, and so the help of
`retire_failed_submissions` says of the command, whose loop takes the rows at the limit as well.

* `isOverLimit` : the rows that the command is to take;
* `OnlyOverLimit` : it retires no other row and sends no notice for one;
* `only_over_limit_iff` : it does so, whatever the LMS answers, exactly if no row is at the limit.
-/

namespace Xqueue

open Library
open Library.System

variable {cfg : Config} {env : CommandEnv} {force : Bool} {scope : Option PyStr}
  {scopes : List (Option PyStr)} {queueNames : List PyStr} {pass : Nat} {t u : Table}
  {s : Submission}

/-- Unretired, in the named queues, with more failures than the limit. -/
def isOverLimit (cfg : Config) (queueNames : List PyStr) (s : Submission) : Bool :=
  !s.retired && (queueNames.isEmpty || queueNames.contains s.queueName) &&
    decide (cfg.maxNumberOfFailures < s.numFailures)

/-- A row that a result has been written to, and that `put_result` has left open. -/
def LeftOpen (cfg : Config) (s : Submission) : Prop :=
  s.retired = false ∧
    ∃ (s₀ : Submission) (now : DateTime) (graderReply : PyStr) (acked : Bool),
      s = s₀.returned cfg now graderReply acked

/-- The rows that are not over the limit are as they were, without a notice; in particular those
that `put_result` has left open. -/
structure OnlyOverLimit (cfg : Config) (queueNames : List PyStr) (t : Table) (ended : Ended Unit) :
    Prop where
  kept : ∀ s ∈ t, isOverLimit cfg queueNames s = false → s ∈ ended.table
  notified : ∀ d, .delivered d ∈ ended.outputs →
    ∃ s ∈ t, s.id = d.id ∧ isOverLimit cfg queueNames s = true
  available : ∀ s ∈ t, LeftOpen cfg s →
    s ∈ ended.table ∧ ∀ d, .delivered d ∈ ended.outputs → d.id ≠ s.id

/-- `put_result` leaves a row open only within its limit. -/
theorem isOverLimit_of_leftOpen (h : LeftOpen cfg s) : isOverLimit cfg queueNames s = false := by
  rcases h with ⟨hopen, s₀, now, graderReply, acked, rfl⟩
  have hlimit : decide (cfg.maxNumberOfFailures <
      (s₀.returned cfg now graderReply acked).numFailures) = false := by
    simp only [Submission.returned, Bool.or_eq_false_iff] at hopen
    exact hopen.2
  rw [isOverLimit, hlimit, Bool.and_false]

/-! ## What the passes spare -/

/-- Only rows with the property `P` have changed since `t`. -/
structure ChangedOnly (P : Submission → Prop) (t u : Table) : Prop where
  kept : ∀ s ∈ t, ¬ P s → s ∈ u
  origin : ∀ r ∈ u, ∃ s ∈ t, s.id = r.id ∧ (r = s ∨ P s)

theorem ChangedOnly.refl (P : Submission → Prop) (t : Table) : ChangedOnly P t t :=
  ⟨fun _ hs _ => hs, fun r hr => ⟨r, hr, rfl, Or.inl rfl⟩⟩

/-- An update of rows that come from rows with the property. -/
theorem ChangedOnly.updateWhere {P : Submission → Prop} {p : Submission → Bool}
    {f : Submission → Submission} {hf : ∀ s, (f s).id = s.id} (h : ChangedOnly P t u)
    (hp : ∀ r ∈ u, p r = true → ∀ s ∈ t, s.id = r.id → P s) :
    ChangedOnly P t (u.updateWhere p f hf) := by
  constructor
  · intro s hs hnot
    have hsu := h.kept s hs hnot
    have hps : p s = false := by
      by_contra hps
      exact hnot (hp s hsu (by simpa using hps) s hs rfl)
    exact KeyedTable.mem_updateWhere.2 ⟨s, hsu, by simp [hps]⟩
  · intro r hr
    rcases KeyedTable.mem_updateWhere.1 hr with ⟨r', hr', rfl⟩
    rcases h.origin r' hr' with ⟨s, hs, hid, horigin⟩
    by_cases hpr : p r' = true
    · refine ⟨s, hs, ?_, Or.inr (hp r' hr' hpr s hs hid)⟩
      rw [if_pos hpr, hf, hid]
    · refine ⟨s, hs, ?_, ?_⟩
      · rw [if_neg hpr, hid]
      · rwa [if_neg hpr]

theorem id_worked_retireFailed (force : Bool) (lms : Nat → Nat → HttpResult) (s : Submission) :
    (worked (fun s => s.retireFailed force (lms s.id)) s).id = s.id := by
  cases force with
  | true => rfl
  | false =>
      have hwork : s.retireFailed false (lms s.id) = ([.delivered (s.deliverFailure (lms s.id))],
          (s.deliverFailure (lms s.id)).outcome.map fun acked => s.notified acked acked) := rfl
      rw [worked, hwork]
      cases (s.deliverFailure (lms s.id)).outcome <;> rfl

/-- The only delivery that the work of the command makes is for its row. -/
theorem id_of_mem_retireFailed {lms : Nat → HttpResult} {d : Delivery}
    (h : .delivered d ∈ (s.retireFailed force lms).1) : d.id = s.id := by
  cases force with
  | true => cases h
  | false =>
      have heq : Output.delivered d = .delivered (s.deliverFailure lms) := List.mem_singleton.1 h
      cases heq
      rfl

/-- One pass, up to an exception. -/
theorem changedOnly_saveEach {P : Submission → Prop} {rows : List Submission}
    (hmem : ∀ r ∈ rows, r ∈ u) (hnodup : (rows.map Submission.id).Nodup)
    (hP : ∀ r ∈ rows, ∃ s ∈ t, s.id = r.id ∧ P s) (h : ChangedOnly P t u) :
    let ended := saveEach (fun s => s.retireFailed force (env.lms pass s.id)) env.now rows u
    ChangedOnly P t ended.table ∧ ∀ d, .delivered d ∈ ended.outputs → ∃ s ∈ t, s.id = d.id ∧ P s := by
  rcases exists_split (fun s => ∃ c, (s.retireFailed force (env.lms pass s.id)).2 = .ok c) rows with
    ⟨done, rest, rfl, hdone, hrest⟩
  rcases saveEach_of_split (id_worked_retireFailed force (env.lms pass)) hmem hnodup hdone hrest with
    ⟨htable, houtputs⟩
  constructor
  · rw [htable]
    refine h.updateWhere ?_
    intro r _ hr s hs hid
    -- the row of the table that the row of the pass comes from
    rcases hP r (by simp [of_decide_eq_true hr]) with ⟨s', hs', hid', hPs'⟩
    rwa [KeyedTable.eq_of_key_eq hs hs' (hid.trans hid'.symm)]
  · intro d hd
    rw [houtputs, List.mem_append, List.mem_flatMap, List.mem_flatMap] at hd
    have hrow : ∃ r ∈ done ++ rest, d.id = r.id := by
      rcases hd with ⟨r, hr, hd⟩ | ⟨r, hr, hd⟩
      · exact ⟨r, by simp [hr], id_of_mem_retireFailed hd⟩
      · have hin : r ∈ rest := List.mem_of_mem_head? (by simpa using hr)
        exact ⟨r, by simp [hin], id_of_mem_retireFailed hd⟩
    rcases hrow with ⟨r, hr, hid⟩
    rcases hP r hr with ⟨s, hs, hid', hPs⟩
    exact ⟨s, hs, hid'.trans hid.symm, hPs⟩

/-- Whatever the LMS answers, the passes change and notify only rows that they select. -/
theorem changedOnly_retirePasses {P : Submission → Prop} {allScopes : List (Option PyStr)}
    (env : CommandEnv) (force : Bool) (pass : Nat)
    (hP : ∀ s ∈ t, (∃ scope ∈ allScopes, isFailed scope s = true) → reachesLimit cfg s = true → P s)
    (hscopes : ∀ scope ∈ scopes, scope ∈ allScopes) (h : ChangedOnly P t u) :
    ChangedOnly P t (retirePasses cfg env force pass scopes u).table ∧
      ∀ d, .delivered d ∈ (retirePasses cfg env force pass scopes u).outputs →
        ∃ s ∈ t, s.id = d.id ∧ P s := by
  induction scopes generalizing pass u with
  | nil => exact ⟨h, fun d hd => by cases hd⟩
  | cons scope scopes ih =>
      have hselected : ∀ r ∈ failedSubmissions cfg (env.plan pass) scope u,
          ∃ s ∈ t, s.id = r.id ∧ P s := by
        intro r hr
        rcases mem_failedSubmissions.1 hr with ⟨hru, hfailed, hlimit⟩
        rcases h.origin r hru with ⟨s, hs, hid, rfl | hPs⟩
        · exact ⟨r, hs, rfl, hP r hs ⟨scope, hscopes scope (by simp), hfailed⟩ hlimit⟩
        · exact ⟨s, hs, hid, hPs⟩
      rcases changedOnly_saveEach (fun r hr => (mem_failedSubmissions.1 hr).1)
        nodup_failedSubmissions hselected h with ⟨hchanged, hnotified⟩
      rcases ih (pass + 1) (fun scope' hmem => hscopes scope' (by simp [hmem])) hchanged with
        ⟨hchanged', hnotified'⟩
      simp only [retirePasses]
      split
      · -- an exception ends the command after this pass
        exact ⟨hchanged, hnotified⟩
      · refine ⟨hchanged', fun d hd => ?_⟩
        rcases List.mem_append.1 hd with hd | hd
        · exact hnotified d hd
        · exact hnotified' d hd

/-! ## The limits agree -/

/-- A row at the limit that some pass selects gets a notice. -/
theorem sentNotices_ne_nil (env : CommandEnv) (pass : Nat)
    (h : scopes.any (fun scope => isFailed scope s) = true) :
    sentNotices env s pass scopes ≠ [] := by
  induction scopes generalizing pass with
  | nil => cases h
  | cons scope scopes ih =>
      rw [sentNotices]
      by_cases hfailed : isFailed scope s = true
      · simp [hfailed]
      · rw [if_neg hfailed]
        exact ih (pass + 1) (by simpa [hfailed] using h)

theorem mem_noticesFor {id : Nat} {os : List Output} {d : Delivery} (h : d ∈ noticesFor id os) :
    .delivered d ∈ os ∧ d.id = id := by
  rcases List.mem_filterMap.1 h with ⟨o, ho, hd⟩
  cases o with
  | delivered d' =>
      by_cases hid : d'.id = id
      · have heq : d' = d := by simpa [hid] using hd
        rw [← heq]
        exact ⟨ho, hid⟩
      · simp [hid] at hd
  | _ => cases hd

/-- The LMS acknowledges everything. -/
def alwaysAcked : CommandEnv where
  plan := fun _ => .insertion
  now := ⟨0, by decide⟩
  lms := fun _ _ _ => .response 200 []

theorem isOverLimit_iff (h : isNamedFailed queueNames s = true) :
    isOverLimit cfg queueNames s = true ↔ cfg.maxNumberOfFailures < s.numFailures := by
  simp only [isNamedFailed, Bool.and_eq_true] at h
  rw [isOverLimit, h.1.1, h.2]
  simp

/-- A run over a row at the limit retires it or sends a notice for it. -/
theorem not_onlyOverLimit (ht : ReachableTable cfg t) (hs : s ∈ t)
    (hnamed : isNamedFailed queueNames s = true) (hlimit : s.numFailures = cfg.maxNumberOfFailures) :
    ¬ OnlyOverLimit cfg queueNames t (retireFailedSubmissions cfg alwaysAcked force queueNames t) := by
  intro h
  have hreaches : reachesLimit cfg s = true := by simp [reachesLimit, hlimit]
  have hnot : isOverLimit cfg queueNames s = false := by
    by_contra hover
    have hlt := (isOverLimit_iff hnamed).1 (by simpa using hover)
    omega
  cases force with
  | true =>
      have hkept := h.kept s hs hnot
      rw [force_eq_updateWhere] at hkept
      rcases KeyedTable.mem_updateWhere.1 hkept with ⟨s', hs', heq⟩
      have hid : s'.id = s.id := by
        rw [← heq]
        split <;> rfl
      rw [KeyedTable.eq_of_key_eq hs' hs hid, hnamed, hreaches] at heq
      -- retired, though a named failed row is open
      have hretired : s.retired = true := congrArg Submission.retired heq.symm
      simp [isNamedFailed, hretired] at hnamed
  | false =>
      have hreturn : NoticesReturn alwaysAcked t := fun r hr pass =>
        (outcome_ok_iff (namesCallback_of_reachable ht hr)).2 fun _ _ _ => rfl
      rcases retirePasses_notices cfg 0 (scopesOf queueNames)
        (fun r hr hopen => (open_of_reachable ht hr hopen).1) hreturn with ⟨-, houtputs, -⟩
      have hdue := houtputs s hs
      rw [hreaches, if_pos rfl] at hdue
      rcases List.exists_mem_of_ne_nil _ (sentNotices_ne_nil alwaysAcked 0
        (any_scopesOf.trans hnamed)) with ⟨d, hd⟩
      rw [← hdue] at hd
      rcases mem_noticesFor hd with ⟨hout, hid⟩
      rcases h.notified d hout with ⟨s', hs', hid', hover⟩
      rw [KeyedTable.eq_of_key_eq hs' hs (hid'.trans hid), hnot] at hover
      cases hover

/-- The command keeps to the limit of `put_result`, whatever the LMS answers, exactly if no row
that it is about has just as many failures as the limit. -/
theorem only_over_limit_iff (ht : ReachableTable cfg t) :
    (∀ env, OnlyOverLimit cfg queueNames t (retireFailedSubmissions cfg env force queueNames t)) ↔
      ∀ s ∈ t, isNamedFailed queueNames s = true → s.numFailures ≠ cfg.maxNumberOfFailures := by
  constructor
  · intro h s hs hnamed hlimit
    exact not_onlyOverLimit ht hs hnamed hlimit (h alwaysAcked)
  · intro hlimit env
    have hover : ∀ s ∈ t, (∃ scope ∈ scopesOf queueNames, isFailed scope s = true) →
        reachesLimit cfg s = true → isOverLimit cfg queueNames s = true := by
      intro s hs hscope hreaches
      have hnamed : isNamedFailed queueNames s = true := by
        rw [← any_scopesOf]
        exact List.any_eq_true.2 hscope
      have hle : cfg.maxNumberOfFailures ≤ s.numFailures := of_decide_eq_true hreaches
      exact (isOverLimit_iff hnamed).2 (Nat.lt_of_le_of_ne hle (hlimit s hs hnamed).symm)
    rcases changedOnly_retirePasses env force 0 hover (fun _ h => h)
      (ChangedOnly.refl _ t) with ⟨hchanged, hnotified⟩
    have hkept : ∀ s ∈ t, isOverLimit cfg queueNames s = false →
        s ∈ (retireFailedSubmissions cfg env force queueNames t).table :=
      fun s hs hnot => hchanged.kept s hs (by simp [hnot])
    refine ⟨hkept, hnotified, fun s hs hleft => ?_⟩
    refine ⟨hkept s hs (isOverLimit_of_leftOpen hleft), fun d hd hid => ?_⟩
    rcases hnotified d hd with ⟨s', hs', hid', hover'⟩
    rw [KeyedTable.eq_of_key_eq hs' hs (hid'.trans hid), isOverLimit_of_leftOpen hleft] at hover'
    cases hover'

/-- The table after a job and two results that the LMS did not take. -/
def twiceFailedTable : Table :=
  tableAfter devSettings [.submit pathStorage ⟨clockAt 0, clockAt 0, true⟩ (jobFor (py "/lms/1/problem")),
    .getSubmission ⟨.insertion, clockAt 1, clockAt 1, .timeout⟩ (pullRequest (py "test-pull")),
    failedResult 2, failedResult 3] KeyedTable.empty

/-- Two failures, of the three that are allowed. -/
theorem only_over_limit_iff_twiceFailed :
    OnlyOverLimit devSettings [] twiceFailedTable
      (retireFailedSubmissions devSettings alwaysAcked false [] twiceFailedTable) := by
  have hlimit : ∀ s ∈ twiceFailedTable.rows, isNamedFailed [] s = true →
      s.numFailures ≠ devSettings.maxNumberOfFailures := by
    decide +kernel
  have hreach : ReachableTable devSettings twiceFailedTable :=
    reachableTable_of_atomic (reachable_tableAfter _ _ _)
  generalize twiceFailedTable = t at hlimit hreach ⊢
  exact (only_over_limit_iff hreach).2 hlimit alwaysAcked

/-- After the third failure `put_result` leaves the row open, yet the command retires it. -/
theorem retired_at_limit :
    ¬ (∀ cfg t queueNames force env, ReachableTable cfg t →
      OnlyOverLimit cfg queueNames t (retireFailedSubmissions cfg env force queueNames t)) := by
  intro h
  have hrow : ∃ s ∈ failedTable.rows, isNamedFailed [] s = true ∧
      s.numFailures = devSettings.maxNumberOfFailures := by
    decide +kernel
  have hreach := failedTable_reachable
  generalize failedTable = t at hrow hreach
  rcases hrow with ⟨s, hs, hnamed, hlimit⟩
  exact not_onlyOverLimit hreach hs hnamed hlimit (h devSettings t [] false alwaysAcked hreach)

end Xqueue
