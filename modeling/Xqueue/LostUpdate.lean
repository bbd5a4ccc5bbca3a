import Xqueue.Deployment

/-!
# LostUpdate — a stale save over a completed operation

Four operations read a row without a lock, work for as long as their HTTP calls take, and save
every column of the copy they have read.  An operation that runs in between may lose what it
has written:

* `Task.Reads`, `Task.overlay` : the rows such an operation reads, the columns it assigns;
* `Rival`, `Rival.effect` : an operation in the window, and what it does to the row;
* `effect_mem` : a rival that completes has exactly this effect;
* `no_lost_update_iff` : no column is lost exactly if the two spare each other (`Spares`).
-/

namespace Xqueue

open Library

variable {cfg : Config} {t : Table} {c c' r s : Submission} {task : Task} {env : WorkEnv}
  {os : List Output} {now : DateTime}

/-! ## The stale save -/

/-- The query of the operation selects the row; no lock is taken. -/
inductive Task.Reads (cfg : Config) (t : Table) (c : Submission) : Task → Prop
  | pull {request : HttpRequest} {plan : QueryPlan} {queryTime : DateTime} {queueName : PyStr} :
      getSubmissionChecks cfg request = .ok queueName →
      getSingleUnretiredSubmission cfg plan queryTime queueName t = some c →
        Reads cfg t c (.pull request)
  | push {worker : Worker} {plan : QueryPlan} {queryTime : DateTime} :
      getSingleUnpushedSubmission cfg plan queryTime worker.queueName t = some c →
        Reads cfg t c (.push worker)
  | retireFailed {scope : Option PyStr} (force : Bool) :
      c ∈ t → isFailed scope c = true → reachesLimit cfg c = true →
        Reads cfg t c (.retireFailed force)
  | retireOld {queueName : PyStr} {bound : Option DateTime} :
      c ∈ t → isOldIn queueName bound c = true → Reads cfg t c .retireOld

theorem Task.Reads.mem (h : task.Reads cfg t c) : c ∈ t := by
  cases h with
  | pull _ hget => exact mem_of_getSingleSubmission hget
  | push hget => exact mem_of_getSingleSubmission hget
  | retireFailed force hc _ _ => exact hc
  | retireOld hc _ => exact hc

theorem Task.Reads.retired (h : task.Reads cfg t c) : c.retired = false := by
  cases h with
  | pull _ hget => exact retired_of_getSingleSubmission hget
  | push hget => exact retired_of_getSingleSubmission hget
  | retireFailed force _ hfailed _ => exact retired_of_isFailed hfailed
  | retireOld _ hold => exact retired_of_isOldIn hold

/-- The push grader has answered with a 200. -/
def isGraded (env : WorkEnv) : Bool :=
  match env.grader with
  | .response statusCode _ => statusCode = 200
  | _ => false

/-- The row `r` with the columns that the operation assigns, as they are in `f`. -/
def Task.overlay (env : WorkEnv) (f r : Submission) : Task → Submission
  | .pull _ => { r with graderId := f.graderId, pullTime := f.pullTime, pullkey := f.pullkey }
  | .push _ =>
      -- either the reply or the failure count, by the answer of the grader
      { r with
        graderId := f.graderId
        pushTime := f.pushTime
        returnTime := f.returnTime
        graderReply := if isGraded env then f.graderReply else r.graderReply
        numFailures := if isGraded env then r.numFailures else f.numFailures
        lmsAck := f.lmsAck
        retired := f.retired }
  | .retireFailed true => { r with retired := f.retired }
  | .retireFailed false => { r with lmsAck := f.lmsAck, retired := f.retired }
  | .retireOld => { r with lmsAck := f.lmsAck, retired := f.retired }
  | .put _ _ => f

/-- After the save of the copy `c` onto the table `u`, every column that the operation does not
assign holds what it held in `u`. -/
def NoLostUpdate (env : WorkEnv) (task : Task) (now : DateTime) (c : Submission) (u : Table) : Prop :=
  ∀ r ∈ u, r.id = c.id → ∀ f ∈ save now c u, f.id = c.id → f = task.overlay env f r

instance (env : WorkEnv) (task : Task) (now : DateTime) (c : Submission) (u : Table) :
    Decidable (NoLostUpdate env task now c u) :=
  inferInstanceAs (Decidable (∀ r ∈ u.rows, r.id = c.id → ∀ f ∈ (save now c u).rows, f.id = c.id →
    f = task.overlay env f r))

/-! ## The operation in the window -/

/-- An operation that runs while another one holds its copy. -/
inductive Rival where
  | putResult (env : WorkEnv) (request : HttpRequest)
  | invalidatePriorSubmissions (callback : PyStr)
  | getSubmission (env : PullEnv) (request : HttpRequest)
  | retireFailedSubmissions (env : CommandEnv) (force : Bool) (queueNames : List PyStr)
  | retireOldSubmissions (env : CommandEnv) (queueName : PyStr) (retireBefore : Option PyStr)

/-- The end of an operation, whatever it returns. -/
def Ended.void {α : Type} (ended : Ended α) : Ended Unit :=
  ⟨ended.table, ended.outputs, ended.result.map (fun _ => ())⟩

def Rival.run (cfg : Config) (t : Table) : Rival → Ended Unit
  | .putResult env request => (Xqueue.putResult cfg env request t).void
  | .invalidatePriorSubmissions callback =>
      ⟨Xqueue.invalidatePriorSubmissions callback t, [.invalidated callback], .ok ()⟩
  | .getSubmission env request => (Xqueue.getSubmission cfg env request t).void
  | .retireFailedSubmissions env force queueNames =>
      Xqueue.retireFailedSubmissions cfg env force queueNames t
  | .retireOldSubmissions env queueName retireBefore =>
      Xqueue.retireOldSubmissions cfg env queueName retireBefore t

/-- What an operation does to one row. -/
inductive Effect where
  | untouched
  | returned (now : DateTime) (graderReply : PyStr) (acked : Bool)
  | retired
  | pulled (request : HttpRequest) (pullTime : DateTime)
  | notified (acked finished : Bool)

def Effect.apply (cfg : Config) (c : Submission) : Effect → Submission
  | .untouched => c
  | .returned now graderReply acked => c.returned cfg now graderReply acked
  | .retired => c.retire
  | .pulled request pullTime => c.pulled cfg request pullTime
  | .notified acked finished => c.notified acked finished

/-- The LMS acknowledges a notice for the row in one of the passes. -/
def noticeAcked (env : CommandEnv) (c : Submission) : (pass : Nat) → List (Option PyStr) → Bool
  | _, [] => false
  | pass, scope :: scopes =>
      (isFailed scope c && (c.deliverFailure (env.lms pass c.id)).acked) ||
        noticeAcked env c (pass + 1) scopes

/-- The effect of the passes of `retire_failed_submissions`: a row in the scope of several is
notified until the LMS acknowledges. -/
def passesEffect (cfg : Config) (env : CommandEnv) (force : Bool) (pass : Nat)
    (scopes : List (Option PyStr)) (c : Submission) : Effect :=
  if reachesLimit cfg c && scopes.any (fun scope => isFailed scope c) then
    if force then .retired
    else .notified (noticeAcked env c pass scopes) (noticeAcked env c pass scopes)
  else .untouched

/-- What the operation, started on the table `t`, does to the row `c`. -/
def Rival.effect (cfg : Config) (t : Table) (c : Submission) : Rival → Effect
  | .putResult env request =>
      match putResultChecks request t with
      | .error _ => .untouched
      | .ok (s, graderReply) =>
          -- the result is for this row, or for another one
          if s.id = c.id then .returned env.now graderReply (c.deliver env.lms graderReply).acked
          else .untouched
  | .invalidatePriorSubmissions callback => if isPrior callback c then .retired else .untouched
  | .getSubmission env request =>
      match getSubmissionChecks cfg request with
      | .error _ => .untouched
      | .ok queueName =>
          match getSingleUnretiredSubmission cfg env.plan env.queryTime queueName t with
          | none => .untouched
          | some s => if s.id = c.id then .pulled request env.pullTime else .untouched
  | .retireFailedSubmissions env force queueNames =>
      passesEffect cfg env force 0 (scopesOf queueNames) c
  | .retireOldSubmissions env queueName retireBefore =>
      match retireBound cfg retireBefore with
      | .error _ => .untouched
      | .ok bound =>
          if isOldIn queueName bound c then .notified (c.deliverFailure (env.lms 0 c.id)).acked true
          else .untouched

/-! ## A completed rival has its effect -/

theorem id_worked {task : Task} {workEnv : Submission → WorkEnv} (s : Submission) :
    (worked (fun s => task.work cfg (workEnv s) s) s).id = s.id := by
  rcases hw : task.work cfg (workEnv s) s with ⟨os, e | c⟩
  · simp [worked, hw]
  · simpa [worked, hw] using id_of_work hw

/-- A loop that completes saves its work on every row it goes over, and no other row. -/
theorem row_of_saveEach (cfg : Config) (task : Task) (workEnv : Submission → WorkEnv)
    {rows : List Submission} {t : Table} (hmem : ∀ s ∈ rows, s ∈ t)
    (hnodup : (rows.map Submission.id).Nodup)
    (hdone : (saveEach (fun s => task.work cfg (workEnv s) s) now rows t).result = .ok ()) :
    (∀ s ∈ t, s.id ∉ rows.map Submission.id →
        s ∈ (saveEach (fun s => task.work cfg (workEnv s) s) now rows t).table) ∧
      (∀ s ∈ rows, ∃ os c, task.work cfg (workEnv s) s = (os, .ok c) ∧
        c ∈ (saveEach (fun s => task.work cfg (workEnv s) s) now rows t).table) := by
  have hworked := ok_of_saveEach hdone
  rw [saveEach_eq_updateWhere id_worked hmem hnodup hworked]
  constructor
  · intro s hs hid
    have hnotin : s ∉ rows := fun h => hid (List.mem_map_of_mem h)
    rw [KeyedTable.mem_updateWhere]
    exact ⟨s, hs, by simp [hnotin]⟩
  · intro s hs
    refine ⟨_, _, Prod.ext rfl (hworked s hs), ?_⟩
    rw [KeyedTable.mem_updateWhere]
    exact ⟨s, hmem s hs, by simp [hs]⟩

theorem acked_of_outcome {d : Delivery} {acked : Bool} (h : d.outcome = .ok acked) :
    d.acked = acked := by
  simp [Delivery.acked, h]

section Passes

variable {cenv : CommandEnv} {force : Bool} {scope : Option PyStr} {scopes : List (Option PyStr)}
  {pass : Nat}

theorem isFailed_of_retired (h : c.retired = true) : isFailed scope c = false := by
  simp [isFailed, h]

theorem passesEffect_of_retired (h : c.retired = true) :
    passesEffect cfg cenv force pass scopes c = .untouched := by
  simp [passesEffect, isFailed_of_retired h]

/-- A notice that fails leaves the row as eligible as it was. -/
theorem isFailed_notified (h : c.retired = false) :
    isFailed scope (c.notified false false) = isFailed scope c := by
  unfold isFailed
  rw [h]
  rfl

theorem noticeAcked_notified (h : c.retired = false) :
    noticeAcked cenv (c.notified false false) pass scopes = noticeAcked cenv c pass scopes := by
  induction scopes generalizing pass with
  | nil => rfl
  | cons scope scopes ih =>
      rw [noticeAcked, noticeAcked, ih, isFailed_notified h]
      rfl

theorem noticeAcked_of_forall (h : scopes.any (fun scope => isFailed scope c) = false) :
    noticeAcked cenv c pass scopes = false := by
  induction scopes generalizing pass with
  | nil => rfl
  | cons scope scopes ih =>
      simp only [List.any_cons, Bool.or_eq_false_iff] at h
      simp [noticeAcked, h.1, ih h.2]

/-- A pass that does not select the row leaves the effect to the later passes. -/
theorem passesEffect_skip (h : ¬ (isFailed scope c = true ∧ reachesLimit cfg c = true)) :
    passesEffect cfg cenv force pass (scope :: scopes) c =
      passesEffect cfg cenv force (pass + 1) scopes c := by
  by_cases hlimit : reachesLimit cfg c = true
  · have hfailed : isFailed scope c = false := by simpa [hlimit] using h
    simp [passesEffect, noticeAcked, hfailed]
  · simp [passesEffect, hlimit]

/-- A failed notice leaves the effect to the later passes too. -/
theorem passesEffect_unacked (hfailed : isFailed scope c = true) (hlimit : reachesLimit cfg c = true)
    (hacked : (c.deliverFailure (cenv.lms pass c.id)).acked = false) :
    (passesEffect cfg cenv false (pass + 1) scopes (c.notified false false)).apply cfg
        (c.notified false false) =
      (passesEffect cfg cenv false pass (scope :: scopes) c).apply cfg c := by
  have hopen := retired_of_isFailed hfailed
  have hlimit' : reachesLimit cfg (c.notified false false) = true := hlimit
  have hany : scopes.any (fun scope => isFailed scope (c.notified false false)) =
      scopes.any (fun scope => isFailed scope c) := by
    simp only [isFailed_notified hopen]
  have hsecond : passesEffect cfg cenv false pass (scope :: scopes) c =
      .notified (noticeAcked cenv c (pass + 1) scopes) (noticeAcked cenv c (pass + 1) scopes) := by
    simp [passesEffect, hlimit, hfailed, noticeAcked, hacked]
  -- a later pass selects the row again, or none does
  by_cases hlater : scopes.any (fun scope => isFailed scope c) = true
  · have hfirst : passesEffect cfg cenv false (pass + 1) scopes (c.notified false false) =
        .notified (noticeAcked cenv c (pass + 1) scopes) (noticeAcked cenv c (pass + 1) scopes) := by
      rw [passesEffect, hlimit', hany, hlater, noticeAcked_notified hopen]
      rfl
    rw [hfirst, hsecond]
    rfl
  · have hnone : scopes.any (fun scope => isFailed scope c) = false := by simpa using hlater
    have hfirst : passesEffect cfg cenv false (pass + 1) scopes (c.notified false false) =
        .untouched := by
      rw [passesEffect, hlimit', hany, hnone]
      rfl
    rw [hfirst, hsecond, noticeAcked_of_forall hnone]
    rfl

theorem effect_of_retirePasses : ∀ {scopes : List (Option PyStr)} {pass : Nat} {t : Table}
    {c : Submission}, c ∈ t → (retirePasses cfg cenv force pass scopes t).result = .ok () →
      (passesEffect cfg cenv force pass scopes c).apply cfg c ∈
        (retirePasses cfg cenv force pass scopes t).table := by
  intro scopes
  induction scopes with
  | nil =>
      intro pass t c hc _
      simpa [passesEffect, Effect.apply, retirePasses] using hc
  | cons scope scopes ih =>
      intro pass t c hc hdone
      -- the pass over the scope, then the passes over the others
      have hrows : ∀ s ∈ failedSubmissions cfg (cenv.plan pass) scope t, s ∈ t :=
        fun s hs => (mem_failedSubmissions.1 hs).1
      simp only [retirePasses] at hdone ⊢
      split at hdone
      · cases hdone
      · rename_i hpass
        rcases row_of_saveEach cfg (.retireFailed force) (cenv.workEnv pass) hrows
          nodup_failedSubmissions hpass with ⟨hkept, hworked⟩
        by_cases hselected : isFailed scope c = true ∧ reachesLimit cfg c = true
        · rcases hselected with ⟨hfailed, hlimit⟩
          rcases hworked c (mem_failedSubmissions.2 ⟨hc, hfailed, hlimit⟩) with ⟨os, c', hw, hc'⟩
          cases writes_of_work hw with
          | forced =>
              -- retired, so no later pass selects it
              have hlast := ih hc' hdone
              rw [passesEffect_of_retired rfl] at hlast
              simpa [passesEffect, hfailed, hlimit, Effect.apply, Task.work, CommandEnv.workEnv]
                using hlast
          | notified acked hout =>
              have hacked : (c.deliverFailure (cenv.lms pass c.id)).acked = acked :=
                acked_of_outcome hout
              -- what the later passes do to the row that this one leaves
              have hlast := ih hc' hdone
              cases acked with
              | true =>
                  rw [passesEffect_of_retired rfl] at hlast
                  simpa [passesEffect, hfailed, hlimit, noticeAcked, hacked, Effect.apply, Task.work,
                    CommandEnv.workEnv] using hlast
              | false => rwa [passesEffect_unacked hfailed hlimit hacked] at hlast
        · have hnot : c ∉ failedSubmissions cfg (cenv.plan pass) scope t :=
            fun hmem => hselected (mem_failedSubmissions.1 hmem).2
          rw [passesEffect_skip hselected]
          exact ih (hkept c hc (KeyedTable.key_notin_of_not_mem hrows hc hnot)) hdone

end Passes

/-- The save of the work on one row puts `x` in the table, whichever row `x` is due for. -/
theorem mem_save_of_work {x : Submission} (hs : s ∈ t) (hc : c ∈ t)
    (hwork : task.work cfg env s = (os, .ok c')) (hsame : s = c → x = c') (hother : s.id ≠ c.id → x = c) :
    x ∈ save now c' t := by
  rw [mem_save_worked hs hwork]
  by_cases hid : s.id = c.id
  · exact Or.inl (hsame (KeyedTable.eq_of_key_eq hs hc hid))
  · right
    rw [hother hid]
    exact ⟨hc, fun heq => hid heq.symm⟩

theorem effect_of_putResult {env : WorkEnv} {request : HttpRequest} (hc : c ∈ t)
    (hdone : ((Rival.putResult env request).run cfg t).result = .ok ()) :
    ((Rival.putResult env request).effect cfg t c).apply cfg c ∈
      ((Rival.putResult env request).run cfg t).table := by
  simp only [Rival.run, Ended.void, putResult, Rival.effect] at hdone ⊢
  cases hchecks : putResultChecks request t with
  | error response => simpa [hchecks, Effect.apply] using hc
  | ok pair =>
      rcases pair with ⟨s, graderReply⟩
      rcases putResultChecks_eq_ok.1 hchecks with ⟨-, -, hs, -⟩
      simp only [hchecks] at hdone ⊢
      rcases hwork : s.putResult cfg env request graderReply with ⟨os, e | c'⟩
      · simp [hwork, Work.finish, Except.map] at hdone
      · have hwork' : (Task.put request graderReply).work cfg env s = (os, .ok c') := hwork
        rcases putResult_eq_ok.1 hwork with ⟨acked, hout, -, rfl⟩
        refine mem_save_of_work hs hc hwork' ?_ ?_
        · rintro rfl
          simp [Effect.apply, acked_of_outcome hout]
        · intro hid
          simp [hid, Effect.apply]

theorem effect_of_getSubmission {env : PullEnv} {request : HttpRequest} (hc : c ∈ t)
    (hdone : ((Rival.getSubmission env request).run cfg t).result = .ok ()) :
    ((Rival.getSubmission env request).effect cfg t c).apply cfg c ∈
      ((Rival.getSubmission env request).run cfg t).table := by
  simp only [Rival.run, Ended.void, getSubmission, Rival.effect] at hdone ⊢
  cases hchecks : getSubmissionChecks cfg request with
  | error response => simpa [hchecks, Effect.apply] using hc
  | ok queueName =>
      cases hget : getSingleUnretiredSubmission cfg env.plan env.queryTime queueName t with
      | none => simpa [hchecks, hget, Effect.apply] using hc
      | some s =>
          have hs : s ∈ t := mem_of_getSingleSubmission hget
          have hwork : (Task.pull request).work cfg ⟨env.pullTime, env.pullTime, .timeout, fun _ => .timeout⟩ s =
              ([], .ok (s.pulled cfg request env.pullTime)) := by
            rw [Task.work, pull_eq_ok]
          -- a pull that completes has been saved
          have hserve : (servePull cfg env.fetch env.pullTime (s.pulled cfg request env.pullTime) t).table =
              save env.pullTime (s.pulled cfg request env.pullTime) t := by
            simp only [hchecks, hget, pull_eq_ok, servePull] at hdone
            unfold servePull
            cases hreply : pullReply env.fetch (s.pulled cfg request env.pullTime) with
            | ok response => rfl
            | error e =>
                by_cases hatomic : cfg.atomicRequests = true <;>
                  simp [hreply, hatomic, Except.map] at hdone
          simp only [hget, pull_eq_ok]
          rw [hserve]
          refine mem_save_of_work hs hc hwork ?_ ?_
          · rintro rfl
            simp [Effect.apply]
          · intro hid
            simp [hid, Effect.apply]

theorem effect_of_retireOldSubmissions {cenv : CommandEnv} {queueName : PyStr}
    {retireBefore : Option PyStr} (hc : c ∈ t)
    (hdone : ((Rival.retireOldSubmissions cenv queueName retireBefore).run cfg t).result = .ok ()) :
    ((Rival.retireOldSubmissions cenv queueName retireBefore).effect cfg t c).apply cfg c ∈
      ((Rival.retireOldSubmissions cenv queueName retireBefore).run cfg t).table := by
  simp only [Rival.run, retireOldSubmissions, Rival.effect] at hdone ⊢
  cases hbound : retireBound cfg retireBefore with
  | error e => simp [hbound] at hdone
  | ok bound =>
      simp only [hbound] at hdone ⊢
      have hrows : ∀ s ∈ (cenv.plan 0).order (t.rows.filter (isOldIn queueName bound)), s ∈ t :=
        fun s hs => (mem_order_filter.1 hs).1
      rcases row_of_saveEach cfg .retireOld (cenv.workEnv 0) hrows nodup_order hdone with
        ⟨hkept, hworked⟩
      by_cases hold : isOldIn queueName bound c = true
      · rcases hworked c (mem_order_filter.2 ⟨hc, hold⟩) with ⟨os, c', hw, hc'⟩
        cases writes_of_work hw with
        | retiredOld acked hout =>
            have hacked : (c.deliverFailure (cenv.lms 0 c.id)).acked = acked := acked_of_outcome hout
            simpa [hold, hacked, Effect.apply, Task.work, CommandEnv.workEnv] using hc'
      · have hnot : c ∉ (cenv.plan 0).order (t.rows.filter (isOldIn queueName bound)) :=
          fun hmem => hold (mem_order_filter.1 hmem).2
        simp only [hold, Effect.apply]
        exact hkept c hc (KeyedTable.key_notin_of_not_mem hrows hc hnot)

/-- What a rival that completes leaves of a row. -/
theorem effect_mem {rival : Rival} (hc : c ∈ t) (hdone : (rival.run cfg t).result = .ok ()) :
    (rival.effect cfg t c).apply cfg c ∈ (rival.run cfg t).table := by
  cases rival with
  | putResult env request => exact effect_of_putResult hc hdone
  | invalidatePriorSubmissions callback =>
      refine mem_invalidate.2 ⟨c, hc, ?_⟩
      by_cases hprior : isPrior callback c = true <;> simp [Rival.effect, hprior, Effect.apply]
  | getSubmission env request => exact effect_of_getSubmission hc hdone
  | retireFailedSubmissions env force queueNames => exact effect_of_retirePasses hc hdone
  | retireOldSubmissions env queueName retireBefore =>
      exact effect_of_retireOldSubmissions hc hdone

theorem id_apply {effect : Effect} : (effect.apply cfg c).id = c.id := by
  cases effect <;> rfl

/-! ## Which operations spare each other -/

/-- The operation assigns `lms_ack`: all but `retire_failed_submissions --force`. -/
def Task.assignsAck : Task → Bool
  | .retireFailed force => !force
  | _ => true

/-- The effect on the row `c` of the operation in the window leaves every column alone that the
operation around it does not assign, or writes there what the row held before. -/
def Spares (cfg : Config) (env : WorkEnv) (c : Submission) : Task → Effect → Prop
  | _, .untouched => True
  -- a pull writes back every other column, `retired` among them
  | .pull _, .pulled _ _ => True
  | .pull _, .notified acked finished => acked = c.lmsAck ∧ finished = false
  | .pull _, .returned _ _ _ => False
  | .pull _, .retired => False
  -- a push assigns the outcome, but not the lease, and only one of reply and failures
  | .push _, .pulled _ pullTime =>
      c.pullTime = some pullTime ∧ c.pullkey = cfg.md5 (pullTime.str ++ PyStr.ofNat c.id)
  | .push _, .returned _ graderReply acked =>
      if isGraded env then acked = true else graderReply = c.graderReply
  | .push _, .retired => True
  | .push _, .notified _ _ => True
  -- the commands assign the flags alone
  | _, .pulled request pullTime =>
      c.graderId = getRequestIp request ∧ c.pullTime = some pullTime ∧
        c.pullkey = cfg.md5 (pullTime.str ++ PyStr.ofNat c.id)
  | task, .returned now graderReply acked =>
      acked = true ∧ c.returnTime = some now ∧ c.graderReply = graderReply ∧
        (task.assignsAck = false → c.lmsAck = true)
  | _, .retired => True
  | task, .notified acked _ => task.assignsAck = false → acked = c.lmsAck

theorem isGraded_of_response {graderReply : PyStr} (h : env.grader = .response 200 graderReply) :
    isGraded env = true := by
  simp [isGraded, h]

theorem isGraded_of_failure {message : PyStr} (h : httpPost env.grader = .ok (false, message)) :
    isGraded env = false := by
  cases hgrader : env.grader with
  | response statusCode text =>
      by_cases hstatus : statusCode = 200
      · simp [hgrader, httpPost, hstatus] at h
      · simp [isGraded, hgrader, hstatus]
  | _ => simp [isGraded, hgrader]

section Overlay

attribute [local simp] Task.overlay Task.assignsAck Effect.apply Spares Submission.pulled
  Submission.returned Submission.pushed Submission.notified Submission.retire

theorem eq_overlay_pull {request : HttpRequest} {effect : Effect} (hlive : c.retired = false) :
    let f := c.pulled cfg request env.now
    f = (Task.pull request).overlay env f (effect.apply cfg c) ↔
      Spares cfg env c (.pull request) effect := by
  cases effect with
  | untouched => simp
  | returned now graderReply acked =>
      -- the result counts a failure, or retires the row
      cases acked <;> simp [hlive]
  | retired => simp [hlive]
  | pulled request' pullTime => simp
  | notified acked finished => simp [hlive, eq_comm]

theorem eq_overlay_push (worker : Worker) (graderReply : PyStr) (acked : Bool) {effect : Effect} :
    (isGraded env = true →
      let f := c.pushed worker env graderReply c.numFailures acked
      (f = (Task.push worker).overlay env f (effect.apply cfg c) ↔
        Spares cfg env c (.push worker) effect)) ∧
    (isGraded env = false →
      let f := c.pushed worker env c.graderReply (c.numFailures + 1) acked
      (f = (Task.push worker).overlay env f (effect.apply cfg c) ↔
        Spares cfg env c (.push worker) effect)) := by
  constructor
  · intro hgraded
    cases effect with
    | returned now graderReply' acked' => cases acked' <;> simp [hgraded]
    | _ => simp [hgraded]
  · intro hfailed
    cases effect with
    | returned now graderReply' acked' => simp [hfailed, eq_comm]
    | _ => simp [hfailed]

theorem eq_overlay_force {effect : Effect} :
    c.retire = (Task.retireFailed true).overlay env c.retire (effect.apply cfg c) ↔
      Spares cfg env c (.retireFailed true) effect := by
  cases effect with
  | untouched => simp
  | returned now graderReply acked => cases acked <;> simp [and_comm]
  | retired => simp
  | pulled request pullTime => simp [and_left_comm]
  | notified acked finished => simp [eq_comm]

theorem eq_overlay_notice {acked finished : Bool} {effect : Effect} :
    let f := c.notified acked finished
    (f = (Task.retireFailed false).overlay env f (effect.apply cfg c) ↔
      Spares cfg env c (.retireFailed false) effect) ∧
    (f = Task.retireOld.overlay env f (effect.apply cfg c) ↔ Spares cfg env c .retireOld effect) := by
  cases effect with
  | untouched => simp
  | returned now graderReply acked' => cases acked' <;> simp
  | retired => simp
  | pulled request pullTime => simp [and_left_comm]
  | notified acked' finished' => simp

end Overlay

/-- The copy that is saved differs from the rival's row in assigned columns only, exactly if the
rival has spared the others. -/
theorem eq_overlay_iff {effect : Effect} (hread : task.Reads cfg t c)
    (hwrites : Task.Writes cfg env c task os c') :
    c' = task.overlay env c' (effect.apply cfg c) ↔ Spares cfg env c task effect := by
  cases hwrites with
  | pulled request => exact eq_overlay_pull hread.retired
  | returned => cases hread
  | graded worker graderReply acked hgrader _ =>
      exact (eq_overlay_push worker graderReply acked).1 (isGraded_of_response hgrader)
  | ungraded worker message acked hfailed _ =>
      exact (eq_overlay_push worker message acked).2 (isGraded_of_failure hfailed)
  | forced => exact eq_overlay_force
  | notified acked _ => exact eq_overlay_notice.1
  | retiredOld acked _ => exact eq_overlay_notice.2

/-- A save loses no column of an operation that completed since the read exactly if that
operation has spared all but the columns that the saving one assigns. -/
theorem no_lost_update_iff {rival : Rival} (hread : task.Reads cfg t c)
    (hwork : task.work cfg env c = (os, .ok c')) (hdone : (rival.run cfg t).result = .ok ()) :
    NoLostUpdate env task now c' (rival.run cfg t).table ↔
      Spares cfg env c task (rival.effect cfg t c) := by
  have hmem := effect_mem hread.mem hdone
  have hid : ((rival.effect cfg t c).apply cfg c).id = c'.id := by
    rw [id_apply, id_of_work hwork]
  have hget : (rival.run cfg t).table.get? c'.id = some ((rival.effect cfg t c).apply cfg c) := by
    rw [← hid]
    exact KeyedTable.get?_of_mem hmem
  -- the row is still stored, so the save is an UPDATE
  have hsaved : c' ∈ save now c' (rival.run cfg t).table :=
    mem_save.2 (Or.inl (asStored_of_get? hget).symm)
  have hlost : NoLostUpdate env task now c' (rival.run cfg t).table ↔
      c' = task.overlay env c' ((rival.effect cfg t c).apply cfg c) := by
    constructor
    · intro h
      exact h _ hmem hid c' hsaved rfl
    · intro h r hr hrid f hf hfid
      -- one row has the id before the save, and one after it
      have hr' : r = (rival.effect cfg t c).apply cfg c :=
        KeyedTable.eq_of_key_eq hr hmem (hrid.trans hid.symm)
      have hf' : f = c' := KeyedTable.eq_of_key_eq hf hsaved hfid
      rw [hr', hf']
      exact h
  calc
    NoLostUpdate env task now c' (rival.run cfg t).table
        ↔ c' = task.overlay env c' ((rival.effect cfg t c).apply cfg c) := hlost
    _ ↔ Spares cfg env c task (rival.effect cfg t c) := eq_overlay_iff hread (writes_of_work hwork)

/-! ## Two runs -/

/-- The work of a pull at a minute. -/
def pullEnvAt (minute : Fin 60) : WorkEnv :=
  ⟨clockAt minute, clockAt minute, .timeout, fun _ => .timeout⟩

theorem pendingTable_selects : (getSingleUnretiredSubmission devSettings .insertion (clockAt 1)
    (py "test-pull") pendingTable).isSome := by
  decide +kernel

/-- The row that a pull of the first job reads. -/
def pendingRow : Submission :=
  (getSingleUnretiredSubmission devSettings .insertion (clockAt 1) (py "test-pull") pendingTable).get
    pendingTable_selects

/-- A second grader pulls the same row in the window of the first. -/
def pullInWindow : Rival :=
  .getSubmission ⟨.insertion, clockAt 1, clockAt 2, .timeout⟩ (pullRequest (py "test-pull"))

/-- The first grader saves over the pull of the second, and loses only what it assigns itself. -/
theorem no_lost_update_iff_doublePull :
    let pulled := pendingRow.pulled devSettings (pullRequest (py "test-pull")) (clockAt 1)
    NoLostUpdate (pullEnvAt 1) (.pull (pullRequest (py "test-pull"))) (clockAt 1) pulled
        (pullInWindow.run devSettings pendingTable).table ∧
      (pullInWindow.run devSettings pendingTable).table.rows.map (fun r => (r.id, r.pullTime)) =
        [(pendingRow.id, some (clockAt 2))] := by
  intro pulled
  have hread : (Task.pull (pullRequest (py "test-pull"))).Reads devSettings pendingTable pendingRow :=
    Task.Reads.pull rfl (Option.some_get pendingTable_selects).symm
  have hwork : (Task.pull (pullRequest (py "test-pull"))).work devSettings (pullEnvAt 1) pendingRow =
      ([], .ok pulled) := by
    rw [Task.work, pull_eq_ok]
    rfl
  have hdone : (pullInWindow.run devSettings pendingTable).result = .ok () := by decide +kernel
  have hchecks : getSubmissionChecks devSettings (pullRequest (py "test-pull")) = .ok (py "test-pull") := rfl
  have hget : getSingleUnretiredSubmission devSettings .insertion (clockAt 1) (py "test-pull")
      pendingTable = some pendingRow := (Option.some_get pendingTable_selects).symm
  refine ⟨(no_lost_update_iff hread hwork hdone).2 ?_, by decide +kernel⟩
  have heffect : pullInWindow.effect devSettings pendingTable pendingRow =
      .pulled (pullRequest (py "test-pull")) (clockAt 2) := by
    simp [pullInWindow, Rival.effect, hchecks, hget]
  rw [heffect]
  trivial

/-- The table after the first grader has pulled the job. -/
def pulledTable : Table :=
  tableAfter devSettings [.getSubmission ⟨.insertion, clockAt 1, clockAt 1, .timeout⟩
    (pullRequest (py "test-pull"))] pendingTable

theorem pulledTable_selects : (getSingleUnretiredSubmission devSettings .insertion (clockAt 3)
    (py "test-pull") pulledTable).isSome := by
  decide +kernel

/-- The row that a second grader reads once the lease is over. -/
def pulledRow : Submission :=
  (getSingleUnretiredSubmission devSettings .insertion (clockAt 3) (py "test-pull") pulledTable).get
    pulledTable_selects

/-- The result of the first grader arrives while the second holds its copy. -/
def resultInWindow : Rival :=
  .putResult ⟨clockAt 3, clockAt 3, .timeout, fun _ => .response 200 []⟩
    (resultWith (py "eaaa7868ba5da1c0b5be0b5b4fc824e9"))

/-- The save of the second grader undoes the result: the acknowledged row is open again. -/
theorem result_lost :
    ¬ (∀ cfg t c task env os c' now rival, Task.Reads cfg t c task →
      task.work cfg env c = (os, .ok c') → (Rival.run cfg t rival).result = .ok () →
        NoLostUpdate env task now c' (rival.run cfg t).table) := by
  intro h
  have hread : (Task.pull (pullRequest (py "test-pull"))).Reads devSettings pulledTable pulledRow :=
    Task.Reads.pull rfl (Option.some_get pulledTable_selects).symm
  have hwork : (Task.pull (pullRequest (py "test-pull"))).work devSettings (pullEnvAt 3) pulledRow =
      ([], .ok (pulledRow.pulled devSettings (pullRequest (py "test-pull")) (clockAt 3))) := by
    rw [Task.work, pull_eq_ok]
    rfl
  have hdone : (resultInWindow.run devSettings pulledTable).result = .ok () := by decide +kernel
  have hlost := h _ _ _ _ _ _ _ (clockAt 3) _ hread hwork hdone
  revert hlost
  decide +kernel

end Xqueue
