import Xqueue.LostUpdate
import Xqueue.Interleaved

/-!
# ConcurrentResults — results for one row that arrive at the same time

Any number of `put_result` requests for one row run side by side.  Each of them holds the lock of
the row from its read to its save, and the LMS is called in between.

* `GraderResult`, `Submission.afterResults` : the results for a row, and the row after some of them,
  one after the other;
* `resultSystem` : the interleaved system, which reports the result of every delivery for the row;
* `Ordered` : the row is free, or one process has read it, or one process has it to save;
* `concurrent_results` : the row is what the results in the order of their saves make of it, so that
  no failure is lost.
-/

namespace Xqueue

open Library
open Library.System

/-! ## Results, one after the other -/

/-- A result that has been accepted for a row, and what the outside answers to it. -/
structure GraderResult where
  request : HttpRequest
  graderReply : PyStr
  env : WorkEnv

namespace GraderResult

/-- How the delivery ends for a row with this header. -/
def outcome (header : PyStr) (r : GraderResult) : Except PyExc Bool :=
  (postGradeToLms r.env.lms header r.graderReply).2

/-- Every attempt has failed. -/
def failed (header : PyStr) (r : GraderResult) : Bool :=
  match r.outcome header with
  | .ok success => !success
  | .error _ => false

theorem failed_iff {header : PyStr} {r : GraderResult} :
    r.failed header = true ↔ r.outcome header = .ok false := by
  unfold failed
  rcases r.outcome header with e | _ | _ <;> simp

/-- No exception undoes the transaction. -/
def commits (header : PyStr) (r : GraderResult) : Bool :=
  match r.outcome header with
  | .ok _ => true
  | .error _ => false

/-- The row after the result. -/
def apply (cfg : Config) (r : GraderResult) (s : Submission) : Submission :=
  match r.outcome s.xqueueHeader with
  | .ok success => s.returned cfg r.env.now r.graderReply success
  | .error _ => s

/-- The request as a whole operation. -/
def event (r : GraderResult) : Event :=
  .putResult r.env r.request

end GraderResult

def Submission.afterResults (cfg : Config) (s : Submission) (rs : List GraderResult) : Submission :=
  rs.foldl (fun s r => r.apply cfg s) s

variable {cfg : Config} {s c : Submission} {r : GraderResult} {rs : List GraderResult}

theorem afterResults_snoc :
    s.afterResults cfg (rs ++ [r]) = r.apply cfg (s.afterResults cfg rs) := by
  simp [Submission.afterResults]

/-- The row has the id, the key and the header of `s`. -/
structure SameJob (s c : Submission) : Prop where
  id : c.id = s.id
  pullkey : c.pullkey = s.pullkey
  xqueueHeader : c.xqueueHeader = s.xqueueHeader

theorem sameJob_afterResults : SameJob s (s.afterResults cfg rs) := by
  induction rs using List.reverseRecOn with
  | nil => exact ⟨rfl, rfl, rfl⟩
  | append_singleton rs r ih =>
      rw [afterResults_snoc, GraderResult.apply]
      split
      · exact ⟨ih.id, ih.pullkey, ih.xqueueHeader⟩
      · exact ih

/-- One more result, if its delivery has an outcome. -/
theorem afterResults_snoc_of_ok {success : Bool} (h : r.outcome s.xqueueHeader = .ok success) :
    s.afterResults cfg (rs ++ [r]) =
      (s.afterResults cfg rs).returned cfg r.env.now r.graderReply success := by
  have hjob : SameJob s (s.afterResults cfg rs) := sameJob_afterResults
  rw [afterResults_snoc, GraderResult.apply, hjob.xqueueHeader, h]

/-- A result whose delivery raises an exception leaves no trace. -/
theorem afterResults_snoc_of_error {e : PyExc} (h : r.outcome s.xqueueHeader = .error e) :
    s.afterResults cfg (rs ++ [r]) = s.afterResults cfg rs := by
  have hjob : SameJob s (s.afterResults cfg rs) := sameJob_afterResults
  rw [afterResults_snoc, GraderResult.apply, hjob.xqueueHeader, h]

/-- One more result counts as a failure, or does not. -/
theorem numFailures_apply : (r.apply cfg s).numFailures =
    s.numFailures + [r].countP (GraderResult.failed s.xqueueHeader) := by
  rw [List.countP_singleton, GraderResult.apply, GraderResult.failed]
  rcases r.outcome s.xqueueHeader with e | _ | _
  · simp
  · simp [Submission.returned]
  · simp [Submission.returned]

/-- Every failure counts, once. -/
theorem numFailures_afterResults : (s.afterResults cfg rs).numFailures =
    s.numFailures + rs.countP (GraderResult.failed s.xqueueHeader) := by
  induction rs using List.reverseRecOn with
  | nil => rfl
  | append_singleton rs r ih =>
      have hheader : (s.afterResults cfg rs).xqueueHeader = s.xqueueHeader :=
        sameJob_afterResults.xqueueHeader
      calc
        (s.afterResults cfg (rs ++ [r])).numFailures
            = (r.apply cfg (s.afterResults cfg rs)).numFailures := by rw [afterResults_snoc]
        _ = (s.afterResults cfg rs).numFailures + [r].countP (GraderResult.failed s.xqueueHeader) := by
              rw [numFailures_apply, hheader]
        _ = s.numFailures + rs.countP (GraderResult.failed s.xqueueHeader) +
              [r].countP (GraderResult.failed s.xqueueHeader) := by rw [ih]
        _ = s.numFailures + (rs ++ [r]).countP (GraderResult.failed s.xqueueHeader) := by
              rw [List.countP_append, Nat.add_assoc]

/-- The last result that commits sets the reply and the flags. -/
theorem flags_afterResults
    (h : (rs.filter (GraderResult.commits s.xqueueHeader)).getLast? = some r) :
    r.outcome s.xqueueHeader = .ok (s.afterResults cfg rs).lmsAck ∧
      (s.afterResults cfg rs).graderReply = r.graderReply ∧
      ((s.afterResults cfg rs).retired = true ↔ (s.afterResults cfg rs).lmsAck = true ∨
        cfg.maxNumberOfFailures < (s.afterResults cfg rs).numFailures) := by
  induction rs using List.reverseRecOn with
  | nil => simp at h
  | append_singleton rs r' ih =>
      rw [List.filter_append] at h
      rcases hout : r'.outcome s.xqueueHeader with e | success
      · rw [afterResults_snoc_of_error hout]
        exact ih (by simpa [GraderResult.commits, hout] using h)
      · have hr : r' = r := by simpa [GraderResult.commits, hout] using h
        subst hr
        rw [afterResults_snoc_of_ok hout]
        exact ⟨hout, rfl, by simp [Submission.returned]⟩

theorem afterResults_of_no_commit
    (h : rs.filter (GraderResult.commits s.xqueueHeader) = []) : s.afterResults cfg rs = s := by
  induction rs using List.reverseRecOn with
  | nil => rfl
  | append_singleton rs r ih =>
      rw [List.filter_append, List.append_eq_nil_iff] at h
      rcases hout : r.outcome s.xqueueHeader with e | success
      · rw [afterResults_snoc_of_error hout]
        exact ih h.1
      · simp [GraderResult.commits, hout] at h

/-! ## One request after the other -/

/-- The request gets past the checks of the row, with this result. -/
def Sends (s : Submission) (request : HttpRequest) (graderReply : PyStr) : Prop :=
  request.isAuthenticated = true ∧ request.method = py "POST" ∧ AcceptedFor request s graderReply

/-- The checks do not look at what a result changes. -/
theorem sends_iff_of_sameJob (h : SameJob s c) {request : HttpRequest} {graderReply : PyStr} :
    Sends c request graderReply ↔ Sends s request graderReply := by
  simp only [Sends, AcceptedFor, keyMatches, h.id, h.pullkey]

theorem putResultChecks_iff_sends {request : HttpRequest} {graderReply : PyStr} {t : Table} :
    putResultChecks request t = .ok (s, graderReply) ↔ s ∈ t ∧ Sends s request graderReply := by
  rw [putResultChecks_eq_ok, Sends]
  constructor
  · rintro ⟨hauth, hmethod, hs, haccepted⟩
    exact ⟨hs, hauth, hmethod, haccepted⟩
  · rintro ⟨hs, hauth, hmethod, haccepted⟩
    exact ⟨hauth, hmethod, hs, haccepted⟩

/-- A whole `put_result` applies its result to the row. -/
theorem apply_mem_event {t : Table} (hs : s ∈ t) (hsends : Sends s r.request r.graderReply) :
    r.apply cfg s ∈ (r.event.run cfg t).1 := by
  have hchecks := putResultChecks_iff_sends.2 ⟨hs, hsends⟩
  have hdeliver : (s.deliver r.env.lms r.graderReply).outcome = r.outcome s.xqueueHeader := rfl
  simp only [GraderResult.event, Event.run, Ended.observed, putResult, hchecks, putResult_eq, hdeliver,
    GraderResult.apply]
  rcases r.outcome s.xqueueHeader with e | success
  · exact hs
  · have hid : (s.returned cfg r.env.now r.graderReply success).id = s.id := rfl
    exact (mem_save_of_mem hs hid).2 (Or.inl rfl)

/-- The row after the requests, one after the other. -/
theorem afterResults_mem_tableAfter {t : Table} (hs : s ∈ t)
    (hsends : ∀ r ∈ rs, Sends s r.request r.graderReply) :
    s.afterResults cfg rs ∈ tableAfter cfg (rs.map GraderResult.event) t := by
  induction rs using List.reverseRecOn with
  | nil => exact hs
  | append_singleton rs r ih =>
      have hrow := ih fun r' hr' => hsends r' (List.mem_append_left _ hr')
      rw [afterResults_snoc, List.map_append, tableAfter, List.foldl_append]
      exact apply_mem_event hrow ((sends_iff_of_sameJob sameJob_afterResults).2 (hsends r (by simp)))

/-! ## The steps of one request -/

/-- The result whose delivery for the row ends with this step. -/
def deliveredResult (id : Nat) (st : State) (a : Nat × Act) : List GraderResult :=
  match st.proc a.1, a.2 with
  | .working (.put request graderReply) s _, .work env =>
      if s.id = id then [⟨request, graderReply, env⟩] else []
  | _, _ => []

/-- The interleaved system, with the results for one row as outputs. -/
def resultSystem (cfg : Config) (id : Nat) : System State (Nat × Act) GraderResult where
  step := fun st a => (st.step cfg a).map (fun next => (next.1, deliveredResult id st a))

/-- The step is the save of a `put_result`, or leaves the row alone. -/
def noOtherWriter (cfg : Config) (id : Nat) (st : State) (a : Nat × Act) : Bool :=
  match st.proc a.1 with
  | .saving (.put _ _) _ _ => true
  | _ =>
      match st.step cfg a with
      | none => true
      | some (st', _) => st'.table.get? id == st.table.get? id

/-- A `put_result` has one row only. -/
def Proc.PutsOne : Proc → Prop
  | .working (.put _ _) _ rest => rest = ⟨[], []⟩
  | .saving (.put _ _) _ rest => rest = ⟨[], []⟩
  | _ => True

variable {free : Nat → Bool} {t t' : Table} {p p' : Proc} {a : Act} {os : List Output} {id : Nat}

/-- The process goes on as before: the rows it locks were locked, and it puts one row at most. -/
structure Proc.Keeps (p p' : Proc) : Prop where
  one : p'.PutsOne
  locked : ∀ id, p'.locked = some id → p.locked = some id

theorem keeps_unlocked (hone : p'.PutsOne) (h : p'.locked = none) : Proc.Keeps p p' := by
  refine ⟨hone, ?_⟩
  intro id hid
  rw [h] at hid
  cases hid

/-- A loop of a command holds no lock. -/
theorem keeps_resume {task : Task} {rest : Rest}
    (h : ∀ request graderReply, task = .put request graderReply → rest = ⟨[], []⟩) :
    Proc.Keeps p (task.resume rest) := by
  rcases rest with ⟨_ | ⟨s, rows⟩, scopes⟩
  · cases task <;> cases scopes <;> exact keeps_unlocked trivial rfl
  · cases task with
    | put request graderReply => cases h request graderReply rfl
    | _ => exact keeps_unlocked trivial rfl

/-- A step that takes a lock is the locked read of a `put_result`. -/
theorem put_of_act (hp : p.PutsOne) (h : p.act cfg free t a = some (t', p', os)) :
    Proc.Keeps p p' ∨ ∃ request graderReply s, p' = .working (.put request graderReply) s ⟨[], []⟩ ∧
      p = .idle ∧ t' = t ∧ free s.id = true ∧ putResultChecks request t = .ok (s, graderReply) := by
  unfold Proc.act at h
  split at h
  · -- submit
    split at h
    · cases h
      exact Or.inl (keeps_unlocked trivial rfl)
    · split at h
      · cases h
        exact Or.inl (keeps_unlocked trivial rfl)
      · split at h
        · cases h
          exact Or.inl (keeps_unlocked trivial rfl)
        · cases h
  · -- store
    cases h
    exact Or.inl (keeps_unlocked trivial rfl)
  · -- get_submission
    split at h
    · cases h
      exact Or.inl (keeps_unlocked trivial rfl)
    · split at h
      · cases h
        exact Or.inl (keeps_unlocked trivial rfl)
      · cases h
        exact Or.inl (keeps_unlocked trivial rfl)
  · -- put_result
    split at h
    · cases h
      exact Or.inl (keeps_unlocked trivial rfl)
    · rename_i hchecks
      split at h
      · rename_i hfree
        cases h
        exact Or.inr ⟨_, _, _, rfl, rfl, rfl, hfree, hchecks⟩
      · cases h
  · -- the push worker
    split at h
    · cases h
      exact Or.inl (keeps_unlocked trivial rfl)
    · cases h
      exact Or.inl (keeps_unlocked trivial rfl)
  · -- retire_failed_submissions
    cases h
    exact Or.inl (keeps_unlocked trivial rfl)
  · -- the query of a pass
    cases h
    exact Or.inl (keeps_resume (by simp))
  · -- retire_old_submissions
    split at h
    · cases h
      exact Or.inl (keeps_unlocked trivial rfl)
    · cases h
      exact Or.inl (keeps_resume (by simp))
  · -- delete_old_submissions
    split at h
    · cases h
      exact Or.inl (keeps_unlocked trivial rfl)
    · cases h
      exact Or.inl (keeps_unlocked trivial rfl)
  · -- the query of a batch
    split at h
    · cases h
      exact Or.inl (keeps_unlocked trivial rfl)
    · cases h
      exact Or.inl (keeps_unlocked trivial rfl)
  · -- the deletion of a batch
    split at h
    · cases h
      exact Or.inl (keeps_unlocked trivial rfl)
    · cases h
  · -- the query before it sleeps
    split at h
    · cases h
      exact Or.inl (keeps_unlocked trivial rfl)
    · cases h
      exact Or.inl (keeps_unlocked trivial rfl)
  · -- work
    rename_i task s rest env
    split at h
    · cases h
      exact Or.inl (keeps_unlocked trivial rfl)
    · rename_i outputs c hwork
      cases h
      -- the instance has the id of the row that is locked
      have hid := id_of_work hwork
      cases task with
      | put request graderReply =>
          refine Or.inl ⟨hp, ?_⟩
          intro id hlocked
          rw [Proc.locked, hid] at hlocked
          exact hlocked
      | _ => exact Or.inl (keeps_unlocked trivial rfl)
  · -- save
    rename_i task c rest fetch now
    split at h
    · cases h
      refine Or.inl (keeps_resume ?_)
      rintro request graderReply rfl
      exact hp
    · cases h
  · cases h

/-! ## All requests -/

/-- Who has the lock of the row: nobody, a process that has read it, or a process that has it to
save.  Only the last one has a result that the stored row does not show. -/
inductive Holds (cfg : Config) (s : Submission) (st : State) (done : List GraderResult) :
    List GraderResult → Prop
  | nobody : st.lock s.id = none → Holds cfg s st done []
  | reader (pid : Nat) (request : HttpRequest) (graderReply : PyStr) : st.lock s.id = some pid →
      st.proc pid = .working (.put request graderReply) (s.afterResults cfg done) ⟨[], []⟩ →
      Sends s request graderReply → Holds cfg s st done []
  | writer (pid : Nat) (request : HttpRequest) (graderReply : PyStr) (r : GraderResult) :
      st.lock s.id = some pid →
      st.proc pid = .saving (.put request graderReply) (s.afterResults cfg (done ++ [r])) ⟨[], []⟩ →
        Holds cfg s st done [r]

/-- The stored row shows the results `done`, in their order; the results `pending` are to be saved. -/
structure InOrder (cfg : Config) (s : Submission) (done pending : List GraderResult) (st : State) :
    Prop where
  row : s.afterResults cfg done ∈ st.table
  sends : ∀ r ∈ done ++ pending, Sends s r.request r.graderReply
  locked : ∀ pid, (st.proc pid).locked = some s.id → st.lock s.id = some pid
  one : ∀ pid, (st.proc pid).PutsOne
  holds : Holds cfg s st done pending

variable {st st' : State} {done pending : List GraderResult} {pid : Nat}

theorem id_afterResults : (s.afterResults cfg rs).id = s.id :=
  sameJob_afterResults.id

/-- The owner of the lock is at its row. -/
theorem Holds.locked (h : Holds cfg s st done pending) (hlock : st.lock s.id = some pid) :
    (st.proc pid).locked = some s.id := by
  cases h with
  | nobody hfree =>
      rw [hfree] at hlock
      cases hlock
  | reader pid' request graderReply hlock' hproc _ =>
      rw [hlock', Option.some.injEq] at hlock
      rw [← hlock, hproc, Proc.locked, id_afterResults]
  | writer pid' request graderReply r hlock' hproc =>
      rw [hlock', Option.some.injEq] at hlock
      rw [← hlock, hproc, Proc.locked, id_afterResults]

section Owner

variable {request : HttpRequest} {graderReply : PyStr} {rest : Rest}

/-- The owner before its delivery. -/
theorem Holds.of_working (h : Holds cfg s st done pending) (hlock : st.lock s.id = some pid)
    (hproc : st.proc pid = .working (.put request graderReply) c rest) :
    pending = [] ∧ c = s.afterResults cfg done ∧ rest = ⟨[], []⟩ ∧ Sends s request graderReply := by
  cases h with
  | nobody hfree =>
      rw [hfree] at hlock
      cases hlock
  | reader pid' _ _ hlock' hproc' hsends =>
      rw [hlock', Option.some.injEq] at hlock
      rw [hlock, hproc] at hproc'
      cases hproc'
      exact ⟨rfl, rfl, rfl, hsends⟩
  | writer pid' _ _ r hlock' hproc' =>
      rw [hlock', Option.some.injEq] at hlock
      rw [hlock, hproc] at hproc'
      cases hproc'

/-- The owner after its delivery. -/
theorem Holds.of_saving (h : Holds cfg s st done pending) (hlock : st.lock s.id = some pid)
    (hproc : st.proc pid = .saving (.put request graderReply) c rest) :
    ∃ r, pending = [r] ∧ c = s.afterResults cfg (done ++ [r]) ∧ rest = ⟨[], []⟩ := by
  cases h with
  | nobody hfree =>
      rw [hfree] at hlock
      cases hlock
  | reader pid' _ _ hlock' hproc' _ =>
      rw [hlock', Option.some.injEq] at hlock
      rw [hlock, hproc] at hproc'
      cases hproc'
  | writer pid' _ _ r hlock' hproc' =>
      rw [hlock', Option.some.injEq] at hlock
      rw [hlock, hproc] at hproc'
      cases hproc'
      exact ⟨r, rfl, rfl, rfl⟩

end Owner

theorem inOrder_start {t : Table} (hs : s ∈ t) : InOrder cfg s [] [] (State.start t) :=
  ⟨hs, by simp, by simp [State.start, Proc.locked], fun _ => trivial, Holds.nobody rfl⟩

namespace InOrder

theorem one_update (h : InOrder cfg s done pending st) (hone : p'.PutsOne) (q : Nat) :
    (Function.update st.proc pid p' q).PutsOne := by
  by_cases hq : q = pid
  · subst hq
    simpa using hone
  · simpa [Function.update_of_ne hq] using h.one q

/-- A step of a process that does not lock the row, before or after it. -/
theorem other (h : InOrder cfg s done pending st) (hp : (st.proc pid).locked ≠ some s.id)
    (hone : p'.PutsOne) (hp' : p'.locked ≠ some s.id) (hrow : s.afterResults cfg done ∈ t') :
    InOrder cfg s done pending ⟨t', st.relock pid p', Function.update st.proc pid p'⟩ := by
  have hlock : st.relock pid p' s.id = st.lock s.id := by
    have hother : st.lock s.id ≠ some pid := fun heq => hp (h.holds.locked heq)
    simp [State.relock, hp', hother]
  have hproc : ∀ {q}, st.lock s.id = some q → Function.update st.proc pid p' q = st.proc q := by
    intro q hq
    refine Function.update_of_ne ?_ _ _
    rintro rfl
    exact hp (h.holds.locked hq)
  refine ⟨hrow, h.sends, ?_, h.one_update hone, ?_⟩
  · intro q hq
    have hne : q ≠ pid := by
      rintro rfl
      exact hp' (by simpa using hq)
    exact hlock.trans (h.locked q (by simpa [Function.update_of_ne hne] using hq))
  · cases h.holds with
    | nobody hfree => exact Holds.nobody (hlock.trans hfree)
    | reader owner request graderReply hfree hread hsends =>
        exact Holds.reader owner request graderReply (hlock.trans hfree) ((hproc hfree).trans hread) hsends
    | writer owner request graderReply r hfree hwrite =>
        exact Holds.writer owner request graderReply r (hlock.trans hfree) ((hproc hfree).trans hwrite)

/-- The owner of the lock moves on: it still has the lock, or it has given it up. -/
theorem own (h : InOrder cfg s done pending st) {done' pending' : List GraderResult}
    (hfree : ∀ q, q ≠ pid → (st.proc q).locked ≠ some s.id) (hone : p'.PutsOne)
    (hrow : s.afterResults cfg done' ∈ t')
    (hsends : ∀ r ∈ done' ++ pending', Sends s r.request r.graderReply)
    (hholds : Holds cfg s ⟨t', st.relock pid p', Function.update st.proc pid p'⟩ done' pending') :
    InOrder cfg s done' pending' ⟨t', st.relock pid p', Function.update st.proc pid p'⟩ := by
  refine ⟨hrow, hsends, ?_, h.one_update hone, hholds⟩
  intro q hq
  by_cases hne : q = pid
  · subst hne
    have hlocked : p'.locked = some s.id := by simpa using hq
    simp [State.relock, hlocked]
  · exact absurd (by simpa [Function.update_of_ne hne] using hq) (hfree q hne)

theorem unlocked_of_ne (h : InOrder cfg s done pending st) (hp : (st.proc pid).locked = some s.id) :
    ∀ q, q ≠ pid → (st.proc q).locked ≠ some s.id := by
  intro q hne hq
  have howner := (h.locked q hq).symm.trans (h.locked pid hp)
  exact hne (Option.some.inj howner)

section Request

variable {request : HttpRequest} {graderReply : PyStr} {rest : Rest}

/-- The locked read: the row is free, and read as it is stored. -/
theorem read (h : InOrder cfg s done pending st) (hidle : st.proc pid = .idle)
    (hfree : st.free pid s.id = true)
    (hchecks : putResultChecks request st.table = .ok (c, graderReply)) (hid : c.id = s.id)
    (hp : p' = .working (.put request graderReply) c ⟨[], []⟩) :
    pending = [] ∧
      InOrder cfg s done [] ⟨st.table, st.relock pid p', Function.update st.proc pid p'⟩ := by
  -- an idle process holds no lock, so the row is free
  have hnone : st.lock s.id = none := by
    cases hlock : st.lock s.id with
    | none => rfl
    | some owner =>
        have howner : owner = pid := by simpa [State.free, hlock] using hfree
        have hlocked := h.holds.locked (hlock.trans (congrArg some howner))
        rw [hidle] at hlocked
        cases hlocked
  have hpending : pending = [] := by
    cases h.holds with
    | nobody => rfl
    | reader => rfl
    | writer owner _ _ r hlock =>
        rw [hnone] at hlock
        cases hlock
  subst hpending
  rcases putResultChecks_iff_sends.1 hchecks with ⟨hc, hsends⟩
  have heq : c = s.afterResults cfg done := KeyedTable.eq_of_key_eq hc h.row (hid.trans id_afterResults.symm)
  have hlocked : p'.locked = some s.id := by rw [hp, Proc.locked, hid]
  refine ⟨rfl, h.own ?_ (by rw [hp]; rfl) h.row h.sends (Holds.reader pid request graderReply ?_ ?_ ?_)⟩
  · intro q _ hq
    have hlock := h.locked q hq
    rw [hnone] at hlock
    cases hlock
  · simp [State.relock, hlocked]
  · simp [hp, heq]
  · rw [heq] at hsends
    exact (sends_iff_of_sameJob sameJob_afterResults).1 hsends

/-- The delivery of the process that has read the row: an exception undoes the transaction, and with
an outcome the row is to be saved. -/
theorem delivered (h : InOrder cfg s done pending st)
    (hproc : st.proc pid = .working (.put request graderReply) c rest) (hid : c.id = s.id)
    (hstep : st.step cfg (pid, a) = some (st', os)) :
    ∃ done' pending', done' ++ pending' = done ++ pending ++ deliveredResult s.id st (pid, a) ∧
      InOrder cfg s done' pending' st' := by
  have hlocked : (st.proc pid).locked = some s.id := by rw [hproc, Proc.locked, hid]
  have hlock := h.locked pid hlocked
  have hothers := h.unlocked_of_ne hlocked
  rcases h.holds.of_working hlock hproc with ⟨rfl, rfl, rfl, hsends⟩
  cases a with
  | work env =>
      let r : GraderResult := ⟨request, graderReply, env⟩
      have hresult : deliveredResult s.id st (pid, .work env) = [r] := by
        simp [deliveredResult, hproc, id_afterResults, r]
      have hsends' : ∀ r' ∈ done ++ [r], Sends s r'.request r'.graderReply := by
        intro r' hr'
        rcases List.mem_append.1 hr' with hr' | hr'
        · exact h.sends r' (List.mem_append_left [] hr')
        · rw [List.mem_singleton.1 hr']
          exact hsends
      have hdeliver : ((s.afterResults cfg done).deliver env.lms graderReply).outcome =
          r.outcome (s.afterResults cfg done).xqueueHeader := rfl
      have hheader : (s.afterResults cfg done).xqueueHeader = s.xqueueHeader :=
        sameJob_afterResults.xqueueHeader
      rw [hresult, List.append_nil]
      simp only [State.step, hproc, Proc.act, Task.work, putResult_eq, hdeliver, hheader] at hstep
      rcases hout : r.outcome s.xqueueHeader with e | success
      · simp only [hout, Except.map, Option.some.injEq, Prod.mk.injEq] at hstep
        rcases hstep with ⟨rfl, -⟩
        refine ⟨done ++ [r], [], by simp, h.own hothers trivial ?_ (by simpa using hsends')
          (Holds.nobody ?_)⟩
        · rw [afterResults_snoc_of_error hout]
          exact h.row
        · simp [State.relock, Proc.locked, hlock]
      · simp only [hout, Except.map, Option.some.injEq, Prod.mk.injEq] at hstep
        rcases hstep with ⟨rfl, -⟩
        have hnext : s.afterResults cfg (done ++ [r]) =
            (s.afterResults cfg done).returned cfg env.now graderReply success :=
          afterResults_snoc_of_ok hout
        refine ⟨done, [r], rfl, h.own hothers rfl h.row hsends'
          (Holds.writer pid request graderReply r ?_ ?_)⟩
        · have hstill : ((s.afterResults cfg done).returned cfg env.now graderReply success).id = s.id := hid
          simp [State.relock, Proc.locked, hstill]
        · simp [hnext]
  | _ => simp [State.step, hproc, Proc.act] at hstep

/-- The save of the process that has the row to save. -/
theorem saved (h : InOrder cfg s done pending st)
    (hproc : st.proc pid = .saving (.put request graderReply) c rest) (hid : c.id = s.id)
    (hstep : st.step cfg (pid, a) = some (st', os)) :
    ∃ done' pending', done' ++ pending' = done ++ pending ++ deliveredResult s.id st (pid, a) ∧
      InOrder cfg s done' pending' st' := by
  have hlocked : (st.proc pid).locked = some s.id := by rw [hproc, Proc.locked, hid]
  have hlock := h.locked pid hlocked
  have hothers := h.unlocked_of_ne hlocked
  rcases h.holds.of_saving hlock hproc with ⟨r, rfl, rfl, rfl⟩
  have hfree : st.free pid (s.afterResults cfg (done ++ [r])).id = true := by
    simp [State.free, id_afterResults, hlock]
  cases a with
  | save fetch now =>
      have hresult : deliveredResult s.id st (pid, .save fetch now) = [] := by
        simp [deliveredResult, hproc]
      rw [hresult]
      simp only [State.step, hproc, Proc.act, hfree, if_true, Task.finish, Option.some.injEq,
        Prod.mk.injEq] at hstep
      rcases hstep with ⟨rfl, -⟩
      refine ⟨done ++ [r], [], by simp, h.own hothers trivial ?_ (by simpa using h.sends)
        (Holds.nobody ?_)⟩
      · have hkey : (s.afterResults cfg (done ++ [r])).id = (s.afterResults cfg done).id :=
          id_afterResults.trans id_afterResults.symm
        exact (mem_save_of_mem h.row hkey).2 (Or.inl rfl)
      · simp [State.relock, Task.resume, Proc.locked, hlock]
  | _ => simp [State.step, hproc, Proc.act] at hstep

end Request

/-- Nobody else writes the row. -/
theorem row_of_noOtherWriter (h : InOrder cfg s done pending st) (hp : (st.proc pid).locked ≠ some s.id)
    (hok : noOtherWriter cfg s.id st (pid, a) = true) (hstep : st.step cfg (pid, a) = some (st', os)) :
    s.afterResults cfg done ∈ st'.table := by
  simp only [noOtherWriter, hstep] at hok
  split at hok
  · -- a result for another row
    rename_i request graderReply c rest hproc
    have hid : (s.afterResults cfg done).id ≠ c.id := by
      intro heq
      rw [hproc, Proc.locked, ← heq, id_afterResults] at hp
      exact hp rfl
    rcases acted_of_step hstep with ⟨t, p, hact, rfl⟩
    rw [hproc] at hact
    cases hact with
    | quiet => exact h.row
    | read => exact h.row
    | saved fetch now => exact mem_save.2 (Or.inr ⟨h.row, hid⟩)
  · have hget : st'.table.get? s.id = st.table.get? s.id := by simpa using hok
    have hrow := KeyedTable.get?_eq_some_iff.2 ⟨h.row, id_afterResults⟩
    exact KeyedTable.mem_of_get? (hget.trans hrow)

/-- One step of any process. -/
theorem step (h : InOrder cfg s done pending st) (hok : noOtherWriter cfg s.id st (pid, a) = true)
    (hstep : st.step cfg (pid, a) = some (st', os)) :
    ∃ done' pending', done' ++ pending' = done ++ pending ++ deliveredResult s.id st (pid, a) ∧
      InOrder cfg s done' pending' st' := by
  by_cases hp : (st.proc pid).locked = some s.id
  · -- the owner of the lock
    cases hproc : st.proc pid with
    | working task c rest =>
        rw [hproc] at hp
        cases task with
        | put request graderReply => exact h.delivered hproc (by simpa [Proc.locked] using hp) hstep
        | _ => simp [Proc.locked] at hp
    | saving task c rest =>
        rw [hproc] at hp
        cases task with
        | put request graderReply => exact h.saved hproc (by simpa [Proc.locked] using hp) hstep
        | _ => simp [Proc.locked] at hp
    | _ => simp [hproc, Proc.locked] at hp
  · have hresult : deliveredResult s.id st (pid, a) = [] := by
      unfold deliveredResult
      split
      · rename_i request graderReply c rest env hproc hact
        have hid : c.id ≠ s.id := fun heq => hp (by rw [hproc, Proc.locked, heq])
        simp [hid]
      · rfl
    have hrow := h.row_of_noOtherWriter hp hok hstep
    rw [hresult, List.append_nil]
    simp only [State.step] at hstep
    split at hstep
    · cases hstep
    · rename_i t p outputs hact
      cases hstep
      rcases put_of_act (h.one pid) hact with
        hkeeps | ⟨request, graderReply, c, hread, hidle, rfl, hfree, hchecks⟩
      · exact ⟨done, pending, rfl, h.other hp hkeeps.one (fun heq => hp (hkeeps.locked _ heq)) hrow⟩
      · by_cases hid : c.id = s.id
        · rcases h.read hidle (hid ▸ hfree) hchecks hid hread with ⟨rfl, hnext⟩
          exact ⟨done, [], rfl, hnext⟩
        · refine ⟨done, pending, rfl, h.other hp (by rw [hread]; rfl) ?_ hrow⟩
          rw [hread, Proc.locked]
          exact fun heq => hid (Option.some.inj heq)

end InOrder

/-- Every run of requests for the row puts their results in an order. -/
theorem inOrder_of_run {t : Table} {as : List (Nat × Act)} (hs : s ∈ t)
    (h : Run (resultSystem cfg s.id) (fun st a => noOtherWriter cfg s.id st a = true) (State.start t) as
      rs st) : ∃ done pending, rs = done ++ pending ∧ InOrder cfg s done pending st := by
  refine h.invariant
    (I := fun rs st => ∃ done pending, rs = done ++ pending ∧ InOrder cfg s done pending st)
    ⟨[], [], rfl, inOrder_start hs⟩ ?_
  rintro rs st ⟨pid, a⟩ st' o ⟨done, pending, rfl, hI⟩ hok hresult
  rcases Option.map_eq_some_iff.1 hresult with ⟨⟨st₁, os⟩, hstep, hnext⟩
  cases hnext
  rcases hI.step hok hstep with ⟨done', pending', heq, hI'⟩
  exact ⟨done', pending', heq.symm, hI'⟩

/-- A process has delivered a result for the row and has not saved it yet. -/
def State.IsSaving (st : State) (id : Nat) : Prop :=
  ∃ pid request graderReply c rest, st.proc pid = .saving (.put request graderReply) c rest ∧ c.id = id

theorem InOrder.pending_iff (h : InOrder cfg s done pending st) : pending ≠ [] ↔ st.IsSaving s.id := by
  constructor
  · intro hne
    cases h.holds with
    | nobody => exact absurd rfl hne
    | reader => exact absurd rfl hne
    | writer pid request graderReply r hlock hproc =>
        exact ⟨pid, request, graderReply, _, _, hproc, id_afterResults⟩
  · rintro ⟨pid, request, graderReply, c, rest, hproc, hid⟩
    have hlock := h.locked pid (by rw [hproc, Proc.locked, hid])
    rcases h.holds.of_saving hlock hproc with ⟨r, rfl, -⟩
    simp

/-- The row is what the results make of `s` one after the other. -/
structure Serialized (cfg : Config) (t : Table) (s : Submission) (rs : List GraderResult)
    (row : Submission) : Prop where
  id : row.id = s.id
  serial : row ∈ tableAfter cfg (rs.map GraderResult.event) t
  numFailures : row.numFailures = s.numFailures + rs.countP (GraderResult.failed s.xqueueHeader)
  last : ∀ r, (rs.filter (GraderResult.commits s.xqueueHeader)).getLast? = some r →
    r.outcome s.xqueueHeader = .ok row.lmsAck ∧ row.graderReply = r.graderReply ∧
      (row.retired = true ↔ row.lmsAck = true ∨ cfg.maxNumberOfFailures < row.numFailures)
  unchanged : rs.filter (GraderResult.commits s.xqueueHeader) = [] → row = s
  allFailed : s.numFailures = 0 → rs ≠ [] → (∀ r ∈ rs, r.failed s.xqueueHeader = true) →
    (row.retired = true ↔ cfg.maxNumberOfFailures + 1 ≤ rs.length)

theorem serialized_afterResults {t : Table} (hs : s ∈ t)
    (hsends : ∀ r ∈ rs, Sends s r.request r.graderReply) :
    Serialized cfg t s rs (s.afterResults cfg rs) := by
  refine ⟨id_afterResults, afterResults_mem_tableAfter hs hsends, numFailures_afterResults,
    fun r h => flags_afterResults h, afterResults_of_no_commit, ?_⟩
  intro hzero hne hfailed
  have hfalse : ∀ r ∈ rs, r.outcome s.xqueueHeader = .ok false :=
    fun r hr => GraderResult.failed_iff.1 (hfailed r hr)
  have hcommits : rs.filter (GraderResult.commits s.xqueueHeader) = rs :=
    List.filter_eq_self.2 fun r hr => by simp [GraderResult.commits, hfalse r hr]
  have hlast : (rs.filter (GraderResult.commits s.xqueueHeader)).getLast? = some (rs.getLast hne) := by
    rw [hcommits]
    exact List.getLast?_eq_some_getLast hne
  rcases @flags_afterResults cfg s _ rs hlast with ⟨hout, -, hretired⟩
  -- the last delivery has failed as well, so the number of failures decides
  have hack : (s.afterResults cfg rs).lmsAck = false := by
    rw [hfalse _ (List.getLast_mem hne), Except.ok.injEq] at hout
    exact hout.symm
  have hcount : rs.countP (GraderResult.failed s.xqueueHeader) = rs.length :=
    List.countP_eq_length.2 hfailed
  rw [hretired, numFailures_afterResults, hzero, hcount, hack]
  simp only [Bool.false_eq_true, false_or, Nat.zero_add, Nat.lt_iff_add_one_le]

/-- However the steps of the requests for a row are interleaved, with each other and with operations
that do not write the row, the row is what the results saved so far make of it, one after the other. -/
theorem concurrent_results {t : Table} {as : List (Nat × Act)} (hs : s ∈ t)
    (h : Run (resultSystem cfg s.id) (fun st a => noOtherWriter cfg s.id st a = true) (State.start t) as
      rs st) :
    ∃ done pending, rs = done ++ pending ∧ (pending ≠ [] ↔ st.IsSaving s.id) ∧ pending.length ≤ 1 ∧
      (∀ r ∈ rs, Sends s r.request r.graderReply) ∧
      ∃ row ∈ st.table, Serialized cfg t s done row := by
  rcases inOrder_of_run hs h with ⟨done, pending, rfl, hI⟩
  have hone : pending.length ≤ 1 := by
    cases hI.holds with
    | nobody => exact Nat.zero_le 1
    | reader => exact Nat.zero_le 1
    | writer => exact Nat.le_refl 1
  have hrow := @serialized_afterResults cfg s done t hs fun r hr => hI.sends r (List.mem_append_left _ hr)
  exact ⟨done, pending, rfl, hI.pending_iff, hone, hI.sends, _, hI.row, hrow⟩

/-- Two results for the pulled job and a second pull, whose copy is not saved: the LMS fails for the
first result and acknowledges the second one. -/
def twoResults : List (Nat × Act) :=
  let send := Act.putResult (resultWith (py "eaaa7868ba5da1c0b5be0b5b4fc824e9"))
  let deliver := fun lms => Act.work ⟨clockAt 3, clockAt 3, .timeout, lms⟩
  [(1, send), (3, .getSubmission (pullRequest (py "test-pull")) .insertion (clockAt 3)),
    (1, deliver fun _ => .timeout), (1, .save .timeout (clockAt 3)), (2, send),
    (2, deliver fun _ => .response 200 []), (2, .save .timeout (clockAt 3))]

theorem twoResults_runs : ((resultSystem devSettings pulledRow.id).execWhile
    (noOtherWriter devSettings pulledRow.id) (State.start pulledTable) twoResults).isSome := by
  decide +kernel

/-- The failure is counted although another result follows. -/
theorem concurrent_results_twoResults :
    let st := (((resultSystem devSettings pulledRow.id).execWhile
      (noOtherWriter devSettings pulledRow.id) (State.start pulledTable) twoResults).get twoResults_runs).1
    (∃ done, ∃ row ∈ st.table, Serialized devSettings pulledTable pulledRow done row) ∧
      st.table.rows.map (fun r => (r.numFailures, r.lmsAck, r.retired)) = [(1, true, true)] := by
  have hs : pulledRow ∈ pulledTable :=
    mem_of_getSingleSubmission (Option.some_get pulledTable_selects).symm
  rcases concurrent_results hs (run_get_while twoResults_runs) with ⟨done, -, -, -, -, -, hrow⟩
  exact ⟨⟨done, hrow⟩, by decide +kernel⟩

end Xqueue
