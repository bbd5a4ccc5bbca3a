import Xqueue.LostUpdate
import Xqueue.PushQueue
import Xqueue.ReachableTable

/-!
# RetireFailed — the passes of `retire_failed_submissions`

The command goes over the named queues one after the other, a queue that is named twice included.
When every notice returns, a failed one leaves its row as it was, so a later pass may send the
next notice for it.

* `noticesFor`, `sentNotices` : the notices for one row in the outputs, and those that are due;
* `retirePasses_notices`, `retirePasses_force` : what a run of the passes leaves and emits;
* `retire_failed_once` : acknowledged rows are retired, all others are as they were;
* `AckedLast` : nothing is sent for a row after an acknowledgement.
-/

namespace Xqueue

open Library
open Library.System

variable {cfg : Config} {env : CommandEnv} {scope : Option PyStr} {scopes : List (Option PyStr)}
  {queueNames : List PyStr} {pass : Nat} {t : Table} {s : Submission}

/-! ## Notices -/

/-- The notice of a pass for a row. -/
def failNotice (env : CommandEnv) (pass : Nat) (s : Submission) : Delivery :=
  s.deliverFailure (env.lms pass s.id)

/-- Every call of `post_failure_to_lms` returns, with `True` or with `False`. -/
def NoticesReturn (env : CommandEnv) (t : Table) : Prop :=
  ∀ s ∈ t, ∀ pass, ∃ acked, (failNotice env pass s).outcome = .ok acked

/-- The deliveries for the row `id`, in the order in which they are made. -/
def noticesFor (id : Nat) (os : List Output) : List Delivery :=
  os.filterMap fun o =>
    match o with
    | .delivered d => if d.id = id then some d else none
    | _ => none

theorem noticesFor_append (id : Nat) (os os' : List Output) :
    noticesFor id (os ++ os') = noticesFor id os ++ noticesFor id os' :=
  List.filterMap_append

/-- The notices due for a row: one in each pass that selects it, up to an acknowledgement. -/
def sentNotices (env : CommandEnv) (s : Submission) : (pass : Nat) → List (Option PyStr) → List Delivery
  | _, [] => []
  | pass, scope :: scopes =>
      if isFailed scope s then
        failNotice env pass s ::
          if (failNotice env pass s).acked then [] else sentNotices env s (pass + 1) scopes
      else sentNotices env s (pass + 1) scopes

/-- No notice follows an acknowledged one. -/
def AckedLast (ds : List Delivery) : Prop :=
  ∀ before d after, ds = before ++ d :: after → d.acked = true → after = []

theorem ackedLast_nil : AckedLast [] := by
  intro before d after h
  simp at h

theorem ackedLast_cons {d : Delivery} {ds : List Delivery} (hd : d.acked = true → ds = [])
    (h : AckedLast ds) : AckedLast (d :: ds) := by
  rintro (_ | ⟨d', before⟩) x after heq hx
  · cases heq
    exact hd hx
  · simp only [List.cons_append, List.cons.injEq] at heq
    exact h before x after heq.2 hx

theorem ackedLast_sentNotices : AckedLast (sentNotices env s pass scopes) := by
  induction scopes generalizing pass with
  | nil => exact ackedLast_nil
  | cons scope scopes ih =>
      rw [sentNotices]
      split
      · refine ackedLast_cons (fun hacked => by simp [hacked]) ?_
        split
        · exact ackedLast_nil
        · exact ih
      · exact ih

theorem any_sentNotices :
    (sentNotices env s pass scopes).any Delivery.acked = noticeAcked env s pass scopes := by
  induction scopes generalizing pass with
  | nil => rfl
  | cons scope scopes ih =>
      rw [sentNotices, noticeAcked]
      by_cases hfailed : isFailed scope s = true
      · cases hacked : (failNotice env pass s).acked with
        | true =>
            have hacked' : (s.deliverFailure (env.lms pass s.id)).acked = true := hacked
            simp [hfailed, hacked, hacked']
        | false =>
            have hacked' : (s.deliverFailure (env.lms pass s.id)).acked = false := hacked
            simp [hfailed, hacked, hacked', ih]
      · simp [hfailed, ih]

theorem sentNotices_of_forall (h : ∀ scope ∈ scopes, isFailed scope s = false) :
    sentNotices env s pass scopes = [] := by
  induction scopes generalizing pass with
  | nil => rfl
  | cons scope scopes ih =>
      rw [sentNotices, h scope (by simp)]
      exact ih fun scope' hmem => h scope' (by simp [hmem])

theorem noticeAcked_of_retired (h : s.retired = true) : noticeAcked env s pass scopes = false :=
  noticeAcked_of_forall (by simp [isFailed_of_retired h])

/-! ## One pass -/

/-- An acknowledged row. -/
def Submission.acknowledged (s : Submission) : Submission :=
  s.notified true true

theorem id_acknowledged (s : Submission) : s.acknowledged.id = s.id :=
  rfl

theorem decide_failedSubmissions {plan : QueryPlan} (hs : s ∈ t) :
    decide (s ∈ failedSubmissions cfg plan scope t) = (isFailed scope s && reachesLimit cfg s) := by
  rw [Bool.eq_iff_iff, decide_eq_true_iff, mem_failedSubmissions, Bool.and_eq_true]
  exact ⟨fun h => h.2, fun h => ⟨hs, h⟩⟩

/-- A pass with `--force` retires what it selects, without a notice. -/
theorem pass_force (pass : Nat) :
    saveEach (fun s => s.retireFailed true (env.lms pass s.id)) env.now
        (failedSubmissions cfg (env.plan pass) scope t) t =
      ⟨t.updateWhere (fun s => isFailed scope s && reachesLimit cfg s) Submission.retire
          (fun _ => id_retire),
        [], .ok ()⟩ := by
  rw [saveEach_eq_updateWhere (fun _ => id_retire) (fun s hs => (mem_failedSubmissions.1 hs).1)
    nodup_failedSubmissions (fun _ _ => rfl)]
  have htable : ∀ s ∈ t, decide (s ∈ failedSubmissions cfg (env.plan pass) scope t) =
      (isFailed scope s && reachesLimit cfg s) := fun s hs => decide_failedSubmissions hs
  rw [KeyedTable.updateWhere_congr htable]
  refine congrArg (fun os => (⟨_, os, .ok ()⟩ : Ended Unit)) ?_
  exact List.flatMap_eq_nil_iff.2 fun _ _ => rfl

/-- A pass whose notices return retires what it selects and the LMS acknowledges.  The other rows
are saved as they were: a row that is not retired has no acknowledgement yet. -/
theorem pass_notices (cfg : Config) (scope : Option PyStr) (pass : Nat)
    (hopen : ∀ s ∈ t, s.retired = false → s.lmsAck = false) (hreturn : NoticesReturn env t) :
    saveEach (fun s => s.retireFailed false (env.lms pass s.id)) env.now
        (failedSubmissions cfg (env.plan pass) scope t) t =
      ⟨t.updateWhere (fun s => isFailed scope s && reachesLimit cfg s && (failNotice env pass s).acked)
          Submission.acknowledged id_acknowledged,
        (failedSubmissions cfg (env.plan pass) scope t).map (fun s => .delivered (failNotice env pass s)),
        .ok ()⟩ := by
  let f : Submission → Submission :=
    fun s => s.notified (failNotice env pass s).acked (failNotice env pass s).acked
  have hid : ∀ s, (f s).id = s.id := fun _ => rfl
  have hwork : ∀ s ∈ failedSubmissions cfg (env.plan pass) scope t,
      (s.retireFailed false (env.lms pass s.id)).2 = .ok (f s) := by
    intro s hs
    rcases hreturn s (mem_failedSubmissions.1 hs).1 pass with ⟨acked, hout⟩
    have hacked : (failNotice env pass s).acked = acked := acked_of_outcome hout
    show (failNotice env pass s).outcome.map _ = .ok (s.notified _ _)
    rw [hout, hacked]
    rfl
  rw [saveEach_eq_updateWhere hid (fun s hs => (mem_failedSubmissions.1 hs).1)
    nodup_failedSubmissions hwork]
  have htable : t.updateWhere (fun s => decide (s ∈ failedSubmissions cfg (env.plan pass) scope t)) f hid =
      t.updateWhere (fun s => isFailed scope s && reachesLimit cfg s && (failNotice env pass s).acked)
        Submission.acknowledged id_acknowledged := by
    refine KeyedTable.updateWhere_ext ?_
    intro s hs
    rw [decide_failedSubmissions hs]
    by_cases hfailed : isFailed scope s = true
    · have hretired := retired_of_isFailed hfailed
      have hack := hopen s hs hretired
      cases hacked : (failNotice env pass s).acked with
      | true => simp [f, hacked, Submission.acknowledged]
      | false =>
          -- written back as it was
          have hsame : f s = s := by
            simp only [f, hacked, Submission.notified]
            rw [← hretired]
            nth_rewrite 1 [hretired]
            rw [← hack]
          simp [hsame]
    · simp [hfailed]
  rw [htable]
  refine congrArg (fun os => (⟨_, os, .ok ()⟩ : Ended Unit)) ?_
  exact List.flatMap_pure_eq_map _ _

/-- The notices of a pass that are for one stored row. -/
theorem noticesFor_pass {rows : List Submission} (hnodup : (rows.map Submission.id).Nodup)
    (hsame : ∀ x ∈ rows, x.id = s.id → x = s) :
    noticesFor s.id (rows.map (fun s => .delivered (failNotice env pass s))) =
      if s ∈ rows then [failNotice env pass s] else [] := by
  induction rows with
  | nil => rfl
  | cons x rows ih =>
      rcases List.nodup_cons.1 hnodup with ⟨hnotin, hnodup⟩
      have hrest := ih hnodup fun y hy => hsame y (by simp [hy])
      have hhead : noticesFor s.id ((x :: rows).map (fun s => .delivered (failNotice env pass s))) =
          (if x.id = s.id then [failNotice env pass x] else []) ++
            noticesFor s.id (rows.map (fun s => .delivered (failNotice env pass s))) := by
        have hid : (failNotice env pass x).id = x.id := rfl
        by_cases hx : x.id = s.id <;> simp [noticesFor, hid, hx]
      rw [hhead, hrest]
      by_cases hx : x.id = s.id
      · have heq := hsame x (by simp) hx
        subst heq
        have hnot : x ∉ rows := fun hmem => hnotin (List.mem_map_of_mem hmem)
        simp [hnot]
      · have hne : s ≠ x := fun heq => hx (congrArg Submission.id heq.symm)
        simp [hx, hne]

theorem noticesFor_failedSubmissions (hs : s ∈ t) :
    noticesFor s.id ((failedSubmissions cfg (env.plan pass) scope t).map
        (fun s => .delivered (failNotice env pass s))) =
      if isFailed scope s && reachesLimit cfg s then [failNotice env pass s] else [] := by
  have hsame : ∀ x ∈ failedSubmissions cfg (env.plan pass) scope t, x.id = s.id → x = s :=
    fun x hx => KeyedTable.eq_of_key_eq (mem_failedSubmissions.1 hx).1 hs
  rw [noticesFor_pass nodup_failedSubmissions hsame]
  refine if_congr ?_ rfl rfl
  rw [Bool.and_eq_true, mem_failedSubmissions]
  exact and_iff_right hs

/-! ## All passes -/

/-- An acknowledgement leaves the header and the id, and with them the notices. -/
theorem NoticesReturn.acknowledge {selected : Submission → Bool} (h : NoticesReturn env t) :
    NoticesReturn env (t.updateWhere selected Submission.acknowledged id_acknowledged) := by
  intro s hs pass
  rcases KeyedTable.mem_updateWhere.1 hs with ⟨s', hs', rfl⟩
  split
  · exact h s' hs' pass
  · exact h s' hs' pass

theorem open_acknowledge {selected : Submission → Bool}
    (h : ∀ s ∈ t, s.retired = false → s.lmsAck = false) :
    ∀ s ∈ t.updateWhere selected Submission.acknowledged id_acknowledged,
      s.retired = false → s.lmsAck = false := by
  intro s hs hretired
  rcases KeyedTable.mem_updateWhere.1 hs with ⟨s', hs', rfl⟩
  split at hretired
  · cases hretired
  · rename_i hnot
    rw [if_neg hnot]
    exact h s' hs' hretired

/-- With `--force` the passes come to one update: the rows that some scope selects. -/
theorem retirePasses_force : retirePasses cfg env true pass scopes t =
    ⟨t.updateWhere (fun s => scopes.any (fun scope => isFailed scope s) && reachesLimit cfg s)
      Submission.retire (fun _ => id_retire), [], .ok ()⟩ := by
  induction scopes generalizing pass t with
  | nil =>
      rw [KeyedTable.updateWhere_of_forall_not (by simp)]
      rfl
  | cons scope scopes ih =>
      -- a row that the first pass has retired is not selected again
      have hfresh : ∀ s ∈ t, (isFailed scope s && reachesLimit cfg s) = true →
          (scopes.any (fun scope => isFailed scope s.retire) && reachesLimit cfg s.retire) = false := by
        intro s _ _
        have hretired : ∀ scope, isFailed scope s.retire = false := fun _ => isFailed_of_retired rfl
        simp [hretired]
      simp only [retirePasses, pass_force, ih, List.append_nil]
      rw [KeyedTable.updateWhere_updateWhere hfresh]
      refine congrArg (fun u => (⟨u, [], .ok ()⟩ : Ended Unit)) (KeyedTable.updateWhere_congr ?_)
      intro s _
      rw [List.any_cons, Bool.and_or_distrib_right]

/-- When every notice returns, the passes come to one update as well: the rows with an
acknowledged notice.  Each row gets the notices that are due to it. -/
theorem retirePasses_notices (cfg : Config) (pass : Nat) (scopes : List (Option PyStr))
    (hopen : ∀ s ∈ t, s.retired = false → s.lmsAck = false) (hreturn : NoticesReturn env t) :
    let ended := retirePasses cfg env false pass scopes t
    ended.table = t.updateWhere (fun s => reachesLimit cfg s && noticeAcked env s pass scopes)
        Submission.acknowledged id_acknowledged ∧
      (∀ s ∈ t, noticesFor s.id ended.outputs =
        if reachesLimit cfg s then sentNotices env s pass scopes else []) ∧
      ended.result = .ok () := by
  induction scopes generalizing pass t with
  | nil =>
      refine ⟨?_, ?_, rfl⟩
      · rw [KeyedTable.updateWhere_of_forall_not (by simp [noticeAcked])]
        rfl
      · intro s _
        simp [retirePasses, sentNotices, noticesFor]
  | cons scope scopes ih =>
      have hpass := pass_notices cfg scope pass hopen hreturn
      let selected : Submission → Bool :=
        fun s => isFailed scope s && reachesLimit cfg s && (failNotice env pass s).acked
      let u := t.updateWhere selected Submission.acknowledged id_acknowledged
      rcases ih (t := u) (pass + 1) (open_acknowledge hopen) hreturn.acknowledge with
        ⟨htable, houtputs, hresult⟩
      simp only [retirePasses, hpass]
      refine ⟨?_, ?_, hresult⟩
      · have hfresh : ∀ s ∈ t, selected s = true →
            (reachesLimit cfg s.acknowledged && noticeAcked env s.acknowledged (pass + 1) scopes) = false := by
          intro s _ _
          rw [noticeAcked_of_retired rfl, Bool.and_false]
        rw [htable, KeyedTable.updateWhere_updateWhere hfresh]
        refine KeyedTable.updateWhere_congr ?_
        intro s _
        -- acknowledged in the first pass, or in a later one
        have hfirst : (s.deliverFailure (env.lms pass s.id)).acked = (failNotice env pass s).acked := rfl
        simp only [selected, noticeAcked, hfirst]
        cases isFailed scope s <;> cases reachesLimit cfg s <;> simp
      · intro s hs
        rw [noticesFor_append, noticesFor_failedSubmissions hs]
        rw [sentNotices]
        by_cases hsel : selected s = true
        · -- acknowledged, so the later passes do not select the row
          have hin : s.acknowledged ∈ u := KeyedTable.mem_updateWhere.2 ⟨s, hs, by rw [if_pos hsel]⟩
          have hlater := houtputs _ hin
          rw [sentNotices_of_forall fun scope _ => isFailed_of_retired rfl, ite_self] at hlater
          simp only [selected, Bool.and_eq_true] at hsel
          rw [show s.acknowledged.id = s.id from rfl] at hlater
          rw [hlater]
          simp [hsel]
        · have hin : s ∈ u := KeyedTable.mem_updateWhere.2 ⟨s, hs, by rw [if_neg hsel]⟩
          rw [houtputs s hin]
          by_cases hlimit : reachesLimit cfg s = true
          · by_cases hfailed : isFailed scope s = true
            · have hunacked : (failNotice env pass s).acked = false := by
                simpa [selected, hfailed, hlimit] using hsel
              simp [hfailed, hlimit, hunacked]
            · simp [hfailed, hlimit]
          · simp [hlimit]

/-! ## The command -/

/-- The rows that the command is about: not retired, with failures, in the named queues. -/
def isNamedFailed (queueNames : List PyStr) (s : Submission) : Bool :=
  !s.retired && s.numFailures ≠ 0 && (queueNames.isEmpty || queueNames.contains s.queueName)

theorem any_scopesOf :
    (scopesOf queueNames).any (fun scope => isFailed scope s) = isNamedFailed queueNames s := by
  cases queueNames with
  | nil => simp [scopesOf, isFailed, isNamedFailed]
  | cons queueName queueNames =>
      rw [Bool.eq_iff_iff]
      simp only [scopesOf, isNamedFailed, reduceCtorEq, if_false, List.any_map, List.any_eq_true,
        Function.comp_apply, isFailed, Bool.and_eq_true, List.isEmpty_cons, Bool.false_or,
        List.contains_iff_mem, beq_iff_eq]
      constructor
      · rintro ⟨name, hname, hopen, rfl⟩
        exact ⟨hopen, hname⟩
      · rintro ⟨hopen, hname⟩
        exact ⟨_, hname, hopen, rfl⟩

/-- What a run without `--force` does, if all its notices return. -/
structure RetiresOnce (queueNames : List PyStr) (t : Table) (ended : Ended Unit) : Prop where
  rows : ∀ r, r ∈ ended.table ↔ ∃ s ∈ t,
    (if (noticesFor s.id ended.outputs).any Delivery.acked then s.acknowledged else s) = r
  changed : ∀ s ∈ t, (noticesFor s.id ended.outputs).any Delivery.acked = true →
    s.retired = false ∧ s.lmsAck = false
  last : ∀ s ∈ t, AckedLast (noticesFor s.id ended.outputs)
  spared : ∀ s ∈ t, s.retired = true ∨ s.numFailures = 0 ∨
    (queueNames ≠ [] ∧ s.queueName ∉ queueNames) → noticesFor s.id ended.outputs = []

/-- What a run with `--force` does: no notice, and a table that only the set of the names and the
rows decide. -/
structure RetiresQuietly (cfg : Config) (queueNames : List PyStr) (t : Table) (ended : Ended Unit) :
    Prop where
  quiet : ended.outputs = []
  names : ∀ env' queueNames', (∀ queueName, queueName ∈ queueNames' ↔ queueName ∈ queueNames) →
    (retireFailedSubmissions cfg env' true queueNames' t).table = ended.table
  again : ∀ env', (retireFailedSubmissions cfg env' true queueNames ended.table).table = ended.table

theorem isNamedFailed_congr {queueNames' : List PyStr}
    (h : ∀ queueName, queueName ∈ queueNames' ↔ queueName ∈ queueNames) :
    isNamedFailed queueNames' s = isNamedFailed queueNames s := by
  have hempty : queueNames'.isEmpty = queueNames.isEmpty := by
    rw [Bool.eq_iff_iff, List.isEmpty_iff, List.isEmpty_iff, List.eq_nil_iff_forall_not_mem,
      List.eq_nil_iff_forall_not_mem]
    simp only [h]
  have hcontains : queueNames'.contains s.queueName = queueNames.contains s.queueName := by
    rw [Bool.eq_iff_iff, List.contains_iff_mem, List.contains_iff_mem, h]
  rw [isNamedFailed, isNamedFailed, hempty, hcontains]

theorem spared_of_not_named (h : s.retired = true ∨ s.numFailures = 0 ∨
    (queueNames ≠ [] ∧ s.queueName ∉ queueNames)) : isNamedFailed queueNames s = false := by
  rcases h with hretired | hzero | ⟨hne, hnot⟩
  · simp [isNamedFailed, hretired]
  · simp [isNamedFailed, hzero]
  · simp [isNamedFailed, hne, hnot]

theorem force_eq_updateWhere : (retireFailedSubmissions cfg env true queueNames t).table =
    t.updateWhere (fun s => isNamedFailed queueNames s && reachesLimit cfg s) Submission.retire
      (fun _ => id_retire) := by
  rw [retireFailedSubmissions, retirePasses_force]
  exact KeyedTable.updateWhere_congr fun s _ => by rw [any_scopesOf]

/-- If every notice returns, the acknowledged rows are retired, by their last notice. -/
theorem retiresOnce_of_returns (hopen : ∀ s ∈ t, s.retired = false → s.lmsAck = false)
    (hreturn : NoticesReturn env t) :
    RetiresOnce queueNames t (retireFailedSubmissions cfg env false queueNames t) := by
  rcases retirePasses_notices cfg 0 (scopesOf queueNames) hopen hreturn with ⟨htable, houtputs, -⟩
  have hdue : ∀ s ∈ t, noticesFor s.id (retireFailedSubmissions cfg env false queueNames t).outputs =
      if reachesLimit cfg s then sentNotices env s 0 (scopesOf queueNames) else [] := houtputs
  have hany : ∀ s ∈ t,
      (noticesFor s.id (retireFailedSubmissions cfg env false queueNames t).outputs).any Delivery.acked =
        (reachesLimit cfg s && noticeAcked env s 0 (scopesOf queueNames)) := by
    intro s hs
    rw [hdue s hs]
    cases reachesLimit cfg s with
    | true => simpa using any_sentNotices
    | false => rfl
  have hnone : ∀ s ∈ t, isNamedFailed queueNames s = false →
      noticesFor s.id (retireFailedSubmissions cfg env false queueNames t).outputs = [] := by
    intro s hs hnamed
    rw [hdue s hs, sentNotices_of_forall, ite_self]
    rw [← any_scopesOf, List.any_eq_false] at hnamed
    exact fun scope hscope => by simpa using hnamed scope hscope
  refine ⟨?_, ?_, ?_, fun s hs h => hnone s hs (spared_of_not_named h)⟩
  · intro r
    rw [retireFailedSubmissions, htable, KeyedTable.mem_updateWhere]
    refine exists_congr fun s => and_congr_right fun hs => ?_
    rw [← hany s hs]
    rfl
  · intro s hs hacked
    have hretired : s.retired = false := by
      by_contra hret
      have hspared : isNamedFailed queueNames s = false :=
        spared_of_not_named (Or.inl (by simpa using hret))
      rw [hnone s hs hspared] at hacked
      cases hacked
    exact ⟨hretired, hopen s hs hretired⟩
  · intro s hs
    rw [hdue s hs]
    split
    · exact ackedLast_sentNotices
    · exact ackedLast_nil

theorem retiresQuietly_force :
    RetiresQuietly cfg queueNames t (retireFailedSubmissions cfg env true queueNames t) where
  quiet := by rw [retireFailedSubmissions, retirePasses_force]
  names := by
    intro env' queueNames' hnames
    rw [force_eq_updateWhere, force_eq_updateWhere]
    exact KeyedTable.updateWhere_congr fun s _ => by rw [isNamedFailed_congr hnames]
  again := by
    intro env'
    rw [force_eq_updateWhere, force_eq_updateWhere]
    refine KeyedTable.updateWhere_of_forall_not ?_
    intro r hr
    rcases KeyedTable.mem_updateWhere.1 hr with ⟨s, -, rfl⟩
    split
    · -- retired by the first run
      rw [spared_of_not_named (Or.inl rfl), Bool.false_and]
    · rename_i hnot
      simpa using hnot

/-- Without `--force` the command retires exactly the rows with an acknowledged notice, of which
there is one at most for a row; with `--force` it sends nothing, and again does nothing. -/
theorem retire_failed_once (ht : ReachableTable cfg t) :
    (NoticesReturn env t →
      RetiresOnce queueNames t (retireFailedSubmissions cfg env false queueNames t)) ∧
      RetiresQuietly cfg queueNames t (retireFailedSubmissions cfg env true queueNames t) := by
  refine ⟨?_, retiresQuietly_force⟩
  exact retiresOnce_of_returns fun s hs hretired => (open_of_reachable ht hs hretired).1

/-- The result of a grader, with an LMS that fails each time. -/
def failedResult (minute : Fin 60) : Event :=
  .putResult ⟨clockAt minute, clockAt minute, .timeout, fun _ => .response 500 []⟩
    (resultWith (py "eaaa7868ba5da1c0b5be0b5b4fc824e9"))

/-- The table after a job, its pull, and three results that the LMS did not take. -/
def failedTable : Table :=
  tableAfter devSettings [.submit pathStorage ⟨clockAt 0, clockAt 0, true⟩ (jobFor (py "/lms/1/problem")),
    .getSubmission ⟨.insertion, clockAt 1, clockAt 1, .timeout⟩ (pullRequest (py "test-pull")),
    failedResult 2, failedResult 3, failedResult 4] KeyedTable.empty

theorem failedTable_reachable : ReachableTable devSettings failedTable :=
  reachableTable_of_atomic (reachable_tableAfter _ _ _)

/-- The LMS answers from the second pass on. -/
def ackedInSecondPass : CommandEnv where
  plan := fun _ => .insertion
  now := clockAt 5
  lms := fun pass _ _ => if pass = 0 then .response 500 [] else .response 200 []

theorem ackedInSecondPass_returns : NoticesReturn ackedInSecondPass failedTable := by
  intro s hs pass
  refine (outcome_ok_iff (namesCallback_of_reachable failedTable_reachable hs)).2 ?_
  intro k _ _
  by_cases hpass : pass = 0 <;> simp [ackedInSecondPass, hpass, HttpResult.isCaught]

/-- The queue is named three times: the first notice fails, the second is acknowledged and is the
last one. -/
theorem retire_failed_once_threeNames :
    let names := [py "test-pull", py "test-pull", py "test-pull"]
    let ended := retireFailedSubmissions devSettings ackedInSecondPass false names failedTable
    RetiresOnce names failedTable ended ∧
      (noticesFor 1 ended.outputs).map Delivery.acked = [false, true] :=
  ⟨(retire_failed_once failedTable_reachable).1 ackedInSecondPass_returns, by decide +kernel⟩

end Xqueue
