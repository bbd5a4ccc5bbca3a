import Xqueue.Deployment
import Xqueue.PushQueue
import Xqueue.ReachableTable

/-!
# RetireOld — the scope of `retire_old_submissions`

The command is to retire the unretired rows of a queue that arrived before a date, whatever the
LMS answers to their notices.

* `parsedDate`, `isBefore` : the date that the option gives, and the scope that it describes;
* `RetiresScope` : each row of the scope is notified and retired, every other row is as it was;
* `retires_scope_iff` : exactly when the command does that (`GetsThrough`);
* `scope_cut_short` : a run that does not.

The query also selects the rows that arrived at the date itself, and an exception that
`_http_post` lets through ends the loop.
-/

namespace Xqueue

open Library
open Library.System

variable {cfg : Config} {env : CommandEnv} {queueName : PyStr} {retireBefore : Option PyStr}
  {date : Option DateTime} {t : Table} {s : Submission}

/-! ## The scope -/

/-- The date that `--retire-before` gives, a naive one read as UTC; `none` if it does not parse. -/
def parsedDate (cfg : Config) : Option PyStr → Option (Option DateTime)
  | none => some none
  | some [] => some none
  | some text =>
      match cfg.parseDatetime text with
      | .naive date => some (some date)
      | .aware date => some (some date)
      | .notDatetime => none
      | .invalid => none

def isNaive (cfg : Config) : Option PyStr → Bool
  | none => false
  | some [] => false
  | some text =>
      match cfg.parseDatetime text with
      | .naive _ => true
      | _ => false

/-- The unretired rows of the queue that arrived strictly before the date. -/
def isBefore (queueName : PyStr) (date : Option DateTime) (s : Submission) : Bool :=
  s.queueName == queueName && !s.retired &&
    match date with
    | none => true
    | some date => decide (s.arrivalTime < date)

/-- The notice of the command for a row. -/
def oldNotice (env : CommandEnv) (s : Submission) : Delivery :=
  s.deliverFailure (env.lms 0 s.id)

/-- The row once its notice is over. -/
def afterNotice (env : CommandEnv) (s : Submission) : Submission :=
  s.notified (oldNotice env s).acked true

theorem id_afterNotice (env : CommandEnv) (s : Submission) : (afterNotice env s).id = s.id :=
  rfl

/-- The command has ended with the whole scope retired and notified, and nothing else changed. -/
structure RetiresScope (env : CommandEnv) (queueName : PyStr) (date : Option DateTime) (t : Table)
    (ended : Ended Unit) : Prop where
  rows : ∀ r, r ∈ ended.table ↔
    ∃ s ∈ t, (if isBefore queueName date s then afterNotice env s else s) = r
  noticed : ∀ s ∈ t, isBefore queueName date s = true →
    .delivered (oldNotice env s) ∈ ended.outputs ∧ (oldNotice env s).posts ≠ []

/-- The rows of the query are first the scope, with no notice that raises an exception, then
possibly rows that arrived at the date, beginning with one whose notice raises one. -/
def GetsThrough (env : CommandEnv) (queueName : PyStr) (date : Option DateTime)
    (rows : List Submission) : Prop :=
  ∃ done rest, rows = done ++ rest ∧
    (∀ s ∈ done, isBefore queueName date s = true ∧ AttemptsCaught (env.lms 0 s.id) 5) ∧
    (∀ s ∈ rest, isBefore queueName date s = false) ∧
    (∀ s ∈ rest.head?, ¬ AttemptsCaught (env.lms 0 s.id) 5)

/-- A naive date makes the command fail before its loop, which is harmless for an empty scope. -/
def ReachesScope (cfg : Config) (env : CommandEnv) (queueName : PyStr) (retireBefore : Option PyStr)
    (date : Option DateTime) (t : Table) : Prop :=
  if isNaive cfg retireBefore then ∀ s ∈ t, isBefore queueName date s = false
  else GetsThrough env queueName date ((env.plan 0).order (t.rows.filter (isOldIn queueName date)))

theorem retireBound_of_parsedDate (h : parsedDate cfg retireBefore = some date) :
    retireBound cfg retireBefore =
      if isNaive cfg retireBefore then .error .attributeError else .ok date := by
  rcases retireBefore with _ | _ | ⟨c, text⟩
  · cases h
    rfl
  · cases h
    rfl
  · cases hparse : cfg.parseDatetime (c :: text) with
    | notDatetime => simp [parsedDate, hparse] at h
    | invalid => simp [parsedDate, hparse] at h
    | naive d => simp [retireBound, isNaive, hparse]
    | aware d =>
        have hd : some d = date := by simpa [parsedDate, hparse] using h
        simp [retireBound, isNaive, hparse, hd]

/-- The query selects the scope, and more only at the date itself. -/
theorem isOldIn_of_isBefore (h : isBefore queueName date s = true) :
    isOldIn queueName date s = true := by
  cases date with
  | none => simpa [isBefore, isOldIn] using h
  | some date =>
      simp only [isBefore, isOldIn, Bool.and_eq_true, decide_eq_true_eq] at h ⊢
      exact ⟨h.1, le_of_lt h.2⟩

theorem retired_of_isBefore (h : isBefore queueName date s = true) : s.retired = false :=
  retired_of_isOldIn (isOldIn_of_isBefore h)

/-! ## The loop -/

/-- The work of the loop on a row, when its notice raises no exception. -/
theorem retireOld_of_caught (hnamed : NamesCallback s) (h : AttemptsCaught (env.lms 0 s.id) 5) :
    (s.retireOld (env.lms 0 s.id)).2 = .ok (afterNotice env s) := by
  have hout : (oldNotice env s).outcome = .ok (oldNotice env s).acked :=
    (reported_deliver hnamed h).1
  show (oldNotice env s).outcome.map _ = _
  rw [hout]
  rfl

theorem retireOld_of_raised (hnamed : NamesCallback s) (h : ¬ AttemptsCaught (env.lms 0 s.id) 5) :
    ∃ e, (s.retireOld (env.lms 0 s.id)).2 = .error e := by
  cases hout : (oldNotice env s).outcome with
  | ok acked => exact absurd ((outcome_ok_iff hnamed).1 ⟨acked, hout⟩) h
  | error e =>
      refine ⟨e, ?_⟩
      show (oldNotice env s).outcome.map _ = _
      rw [hout]
      rfl

theorem worked_retireOld (env : CommandEnv) (s : Submission) :
    (worked (fun s => s.retireOld (env.lms 0 s.id)) s).id = s.id := by
  have hwork : s.retireOld (env.lms 0 s.id) = ([.delivered (oldNotice env s)],
      (oldNotice env s).outcome.map fun success => s.notified success true) := rfl
  rw [worked, hwork]
  cases (oldNotice env s).outcome <;> rfl

/-- The rows up to the first notice that raises an exception are retired, with their notices. -/
theorem saveEach_retireOld {done rest : List Submission} (now : DateTime)
    (hmem : ∀ s ∈ done ++ rest, s ∈ t) (hnodup : ((done ++ rest).map Submission.id).Nodup)
    (hnamed : ∀ r ∈ t, NamesCallback r)
    (hdone : ∀ s ∈ done, AttemptsCaught (env.lms 0 s.id) 5)
    (hrest : ∀ s ∈ rest.head?, ¬ AttemptsCaught (env.lms 0 s.id) 5) :
    let ended := saveEach (fun s => s.retireOld (env.lms 0 s.id)) now (done ++ rest) t
    ended.table = t.updateWhere (fun s => decide (s ∈ done)) (afterNotice env) (id_afterNotice env) ∧
      ∀ s ∈ done, .delivered (oldNotice env s) ∈ ended.outputs := by
  have hwork : ∀ s ∈ done, (s.retireOld (env.lms 0 s.id)).2 = .ok (afterNotice env s) :=
    fun s hs => retireOld_of_caught (hnamed s (hmem s (by simp [hs]))) (hdone s hs)
  have hraised : ∀ s ∈ rest.head?, ¬ ∃ c, (s.retireOld (env.lms 0 s.id)).2 = .ok c := by
    rintro s hs ⟨c, hc⟩
    have hin : s ∈ rest := List.mem_of_mem_head? hs
    rcases retireOld_of_raised (hnamed s (hmem s (by simp [hin]))) (hrest s hs) with ⟨e, he⟩
    rw [hc] at he
    cases he
  rcases saveEach_of_split (worked_retireOld env) hmem hnodup
    (fun s hs => ⟨_, hwork s hs⟩) hraised with ⟨htable, houtputs⟩
  refine ⟨htable.trans (KeyedTable.updateWhere_ext ?_), ?_⟩
  · intro s _
    by_cases hs : s ∈ done
    · simp [hs, worked, hwork s hs]
    · simp [hs]
  · intro s hs
    rw [houtputs]
    exact List.mem_append_left _ (List.mem_flatMap.2 ⟨s, hs, List.mem_singleton.2 rfl⟩)

/-! ## When the scope is retired -/

theorem ne_afterNotice (h : s.retired = false) : s ≠ afterNotice env s := by
  intro heq
  have := congrArg Submission.retired heq
  rw [h] at this
  cases this

/-- The rows that an update by notices has changed are exactly the scope. -/
theorem done_iff_of_rows {done : List Submission}
    (hrows : ∀ r, r ∈ t.updateWhere (fun s => decide (s ∈ done))
        (afterNotice env) (id_afterNotice env) ↔
      ∃ s ∈ t, (if isBefore queueName date s then afterNotice env s else s) = r)
    (hopen : ∀ s ∈ done, s.retired = false) (hs : s ∈ t) :
    s ∈ done ↔ isBefore queueName date s = true := by
  constructor
  · intro hdone
    by_contra hout
    -- the row is due as it was, yet the table has it retired
    have hkept := (hrows s).2 ⟨s, hs, by simp [hout]⟩
    rcases KeyedTable.mem_updateWhere.1 hkept with ⟨s', hs', heq⟩
    have hid : s'.id = s.id := by
      rw [← heq]
      split <;> rfl
    rw [KeyedTable.eq_of_key_eq hs' hs hid] at heq
    simp only [hdone, decide_true, if_true] at heq
    exact ne_afterNotice (hopen s hdone) heq.symm
  · intro hin
    by_contra hdone
    -- the row is due retired, yet the table has it as it was
    have hnotified := (hrows (afterNotice env s)).2 ⟨s, hs, by simp [hin]⟩
    rcases KeyedTable.mem_updateWhere.1 hnotified with ⟨s', hs', heq⟩
    have hid : s'.id = s.id := by
      have := congrArg Submission.id heq
      split at this <;> exact this
    rw [KeyedTable.eq_of_key_eq hs' hs hid] at heq
    simp only [hdone, decide_false] at heq
    exact ne_afterNotice (retired_of_isBefore hin) heq

section Query

variable {rows : List Submission}

/-- A loop that leaves the scope retired has got through it. -/
theorem getsThrough_of_retiresScope (hnamed : ∀ r ∈ t, NamesCallback r)
    (hselected : ∀ s, s ∈ rows ↔ s ∈ t ∧ isOldIn queueName date s = true)
    (hnodup : (rows.map Submission.id).Nodup)
    (h : RetiresScope env queueName date t
      (saveEach (fun s => s.retireOld (env.lms 0 s.id)) env.now rows t)) :
    GetsThrough env queueName date rows := by
  rcases exists_split (fun s => AttemptsCaught (env.lms 0 s.id) 5) rows with
    ⟨done, rest, rfl, hdone, hrest⟩
  rcases saveEach_retireOld env.now (fun s hs => ((hselected s).1 hs).1) hnodup hnamed hdone hrest
    with ⟨htable, -⟩
  have hrows := h.rows
  rw [htable] at hrows
  have hscope : ∀ s ∈ t, (s ∈ done ↔ isBefore queueName date s = true) :=
    fun s hs => done_iff_of_rows hrows
      (fun x hx => retired_of_isOldIn ((hselected x).1 (by simp [hx])).2) hs
  refine ⟨done, rest, rfl, ?_, ?_, hrest⟩
  · intro s hs
    exact ⟨(hscope s ((hselected s).1 (by simp [hs])).1).1 hs, hdone s hs⟩
  · intro s hs
    -- no row is in both parts
    have hnot : s ∉ done := by
      rw [List.map_append, List.nodup_append] at hnodup
      exact fun hin => hnodup.2.2 s.id (List.mem_map_of_mem hin) s.id (List.mem_map_of_mem hs) rfl
    by_contra hin
    exact hnot ((hscope s ((hselected s).1 (by simp [hs])).1).2 (by simpa using hin))

theorem retiresScope_of_getsThrough (hnamed : ∀ r ∈ t, NamesCallback r)
    (hselected : ∀ s, s ∈ rows ↔ s ∈ t ∧ isOldIn queueName date s = true)
    (hnodup : (rows.map Submission.id).Nodup) (h : GetsThrough env queueName date rows) :
    RetiresScope env queueName date t
      (saveEach (fun s => s.retireOld (env.lms 0 s.id)) env.now rows t) := by
  rcases h with ⟨done, rest, rfl, hdone, hout, hrest⟩
  rcases saveEach_retireOld env.now (fun s hs => ((hselected s).1 hs).1) hnodup hnamed
    (fun s hs => (hdone s hs).2) hrest with ⟨htable, houtputs⟩
  have hscope : ∀ s ∈ t, isBefore queueName date s = true → s ∈ done := by
    intro s hs hin
    rcases List.mem_append.1 ((hselected s).2 ⟨hs, isOldIn_of_isBefore hin⟩) with h | h
    · exact h
    · rw [hout s h] at hin
      cases hin
  constructor
  · intro r
    rw [htable, KeyedTable.mem_updateWhere]
    -- both sides change the same rows
    refine exists_congr fun s => and_congr_right fun hs => ?_
    have hiff : s ∈ done ↔ isBefore queueName date s = true :=
      ⟨fun h => (hdone s h).1, hscope s hs⟩
    simp only [hiff, Bool.decide_eq_true]
  · intro s hs hin
    have hcaught := (hdone s (hscope s hs hin)).2
    have hreported : (oldNotice env s).Reported := (reported_deliver (hnamed s hs) hcaught).2
    exact ⟨houtputs s (hscope s hs hin), List.length_pos_iff.1 hreported.pos⟩

end Query

/-- A command that does nothing has retired its scope exactly if that is empty. -/
theorem retiresScope_unchanged_iff {result : Except PyExc Unit} :
    RetiresScope env queueName date t ⟨t, [], result⟩ ↔
      ∀ s ∈ t, isBefore queueName date s = false := by
  constructor
  · intro h s hs
    by_contra hin
    exact absurd (h.noticed s hs (by simpa using hin)).1 List.not_mem_nil
  · intro hempty
    refine ⟨?_, fun s hs hin => absurd hin (by simp [hempty s hs])⟩
    intro r
    constructor
    · exact fun hr => ⟨r, hr, by simp [hempty r hr]⟩
    · rintro ⟨s, hs, rfl⟩
      simpa [hempty s hs] using hs

/-- The command retires its whole scope, and nothing else, exactly if its date is not naive and
its notices let it get through (or, for a naive date, if the scope is empty). -/
theorem retires_scope_iff (ht : ReachableTable cfg t)
    (hdate : parsedDate cfg retireBefore = some date) :
    RetiresScope env queueName date t (retireOldSubmissions cfg env queueName retireBefore t) ↔
      ReachesScope cfg env queueName retireBefore date t := by
  have hnamed : ∀ r ∈ t, NamesCallback r := fun r hr => namesCallback_of_reachable ht hr
  have hbound := retireBound_of_parsedDate hdate
  unfold retireOldSubmissions ReachesScope
  by_cases hnaive : isNaive cfg retireBefore = true
  · rw [if_pos hnaive] at hbound
    simp only [hbound, hnaive, if_true]
    exact retiresScope_unchanged_iff
  · rw [if_neg hnaive] at hbound
    simp only [hbound, hnaive]
    exact ⟨getsThrough_of_retiresScope hnamed (fun s => mem_order_filter) nodup_order,
      retiresScope_of_getsThrough hnamed (fun s => mem_order_filter) nodup_order⟩

/-- A run of the command over two jobs, with the given answers of the LMS. -/
def noticesAnswered (lms : Nat → HttpResult) : CommandEnv where
  plan := fun _ => .insertion
  now := clockAt 5
  lms := fun _ id _ => lms id

/-- The first notice fails, the second is acknowledged. -/
def secondAcked : CommandEnv :=
  noticesAnswered fun id => if id = 1 then .response 500 [] else .response 200 []

/-- Both jobs are retired, each with the outcome of its own notice. -/
theorem retires_scope_iff_secondAcked :
    let ended := retireOldSubmissions pushSettings secondAcked (py "test-pull") none twoJobs
    RetiresScope secondAcked (py "test-pull") none twoJobs ended ∧
      ended.table.rows.map (fun r => (r.retired, r.lmsAck)) = [(true, false), (true, true)] := by
  have hreach : ReachableTable pushSettings twoJobs :=
    reachableTable_of_atomic (reachable_tableAfter _ _ _)
  have hall : ∀ s ∈ (secondAcked.plan 0).order (twoJobs.rows.filter (isOldIn (py "test-pull") none)),
      isBefore (py "test-pull") none s = true ∧ AttemptsCaught (secondAcked.lms 0 s.id) 5 := by
    decide +kernel
  refine ⟨(retires_scope_iff hreach rfl).2 ?_, by decide +kernel⟩
  exact ⟨_, [], (List.append_nil _).symm, hall, by simp, by simp⟩

/-- The first notice raises an exception, after which the second job is still open. -/
theorem scope_cut_short :
    ¬ (∀ cfg env queueName retireBefore date t, ReachableTable cfg t →
      parsedDate cfg retireBefore = some date →
        RetiresScope env queueName date t (retireOldSubmissions cfg env queueName retireBefore t)) := by
  intro h
  have hscope := h pushSettings
    (noticesAnswered fun id => if id = 1 then .raised .requestException else .response 200 [])
    (py "test-pull") none none twoJobs (reachableTable_of_atomic (reachable_tableAfter _ _ _)) rfl
  have hall : ∀ s ∈ twoJobs.rows, isBefore (py "test-pull") none s = true := by decide +kernel
  -- both rows are in the scope, so no row should be left open
  have hretired : ∀ r ∈ (retireOldSubmissions pushSettings
      (noticesAnswered fun id => if id = 1 then .raised .requestException else .response 200 [])
      (py "test-pull") none twoJobs).table, r.retired = true := by
    intro r hr
    rcases (hscope.rows r).1 hr with ⟨s, hs, rfl⟩
    rw [if_pos (hall s hs)]
    rfl
  revert hretired
  simp only [KeyedTable.mem_rows]
  decide +kernel

/-- A naive date ends the command before its loop. -/
example : ((retireOldSubmissions { devSettings with parseDatetime := fun _ => .naive (clockAt 5) }
    secondAcked (py "test-pull") (some (py "2026-01-01 10:05:00")) pendingTable).table.rows.map
      Submission.retired) = [false] := by
  decide +kernel

/-- A row that arrived at the date is retired too. -/
example : ((retireOldSubmissions { devSettings with parseDatetime := fun _ => .aware (clockAt 0) }
    secondAcked (py "test-pull") (some (py "2026-01-01 10:00:00Z")) pendingTable).table.rows.map
      Submission.retired) = [true] := by
  decide +kernel

end Xqueue
