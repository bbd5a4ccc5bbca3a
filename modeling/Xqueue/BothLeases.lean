import Xqueue.Lease
import Xqueue.Operations

/-!
# BothLeases — the two leases of a submission

A pull looks at `pull_time` alone and a push at `push_time` alone, so each ignores the lease that
the other has taken.  One operation after another:

* `givingSystem` : the submissions that are given to a grader, and when;
* `LeasesOver`, `both_leases_exclusive` : they are a delay apart in every run whose pulls and pushes
  find both leases of their row over (`meetsLeases`);
* `pulled_and_pushed` : they are not for a queue that is pulled and pushed.
-/

namespace Xqueue

open Library
open Library.System

variable {cfg : Config} {t u : Table} {e : Event} {s c : Submission} {time : DateTime}
  {gs : List (Nat × DateTime)}

/-! ## What is given, and when -/

/-- When a push worker posts to its grader. -/
def Event.postTime : Event → Option DateTime
  | .deliverSubmission env _ => some env.now
  | _ => none

/-- The submission that an output of the event gives to a grader, and when. -/
def Event.given (e : Event) : Output → Option (Nat × DateTime)
  | .pushed post => e.postTime.map (fun time => (post.id, time))
  | o => handedOut o

/-- The operations, of which nothing is seen but what they give to graders. -/
def givingSystem (cfg : Config) : System Table Event (Nat × DateTime) where
  step := fun t e => some ((e.run cfg t).1, (e.run cfg t).2.filterMap e.given)

/-- No two times at which one submission is given are less than a delay apart. -/
def GivenApart (cfg : Config) (gs : List (Nat × DateTime)) : Prop :=
  gs.Pairwise (fun x y => x.1 = y.1 → DelayApart cfg x.2 y.2)

instance (cfg : Config) (gs : List (Nat × DateTime)) : Decidable (GivenApart cfg gs) :=
  inferInstanceAs (Decidable (List.Pairwise _ _))

/-- A lease that is null, or taken at least a delay before. -/
def leaseEnded (cfg : Config) (lease : Option DateTime) (time : DateTime) : Bool :=
  match lease with
  | none => true
  | some stored => (stored.micros : Int) + cfg.submissionProcessingDelay ≤ time.micros

theorem leaseEnded_iff {lease : Option DateTime} : leaseEnded cfg lease time = true ↔
    ∀ stored, lease = some stored →
      (stored.micros : Int) + cfg.submissionProcessingDelay ≤ time.micros := by
  cases lease <;> simp [leaseEnded]

/-- One of the four operations of the service, in which a worker gets through its round. -/
def completes (cfg : Config) (t : Table) : Event → Bool
  | .submit _ _ _ => true
  | .getSubmission _ _ => true
  | .putResult _ _ => true
  | .deliverSubmission env worker =>
      match (worker.deliverSubmission cfg env t).result with
      | .ok () => true
      | .error _ => false
  | .retireFailedSubmissions _ _ _ => false
  | .retireOldSubmissions _ _ _ => false

/-- A pull finds the push lease of its row over, and a push the pull lease. -/
def findsLeaseEnded (cfg : Config) (t : Table) : Event → Bool
  | .getSubmission env request =>
      match getSubmissionChecks cfg request with
      | .error _ => true
      | .ok queueName =>
          match getSingleUnretiredSubmission cfg env.plan env.queryTime queueName t with
          | none => true
          | some s => leaseEnded cfg s.pushTime env.pullTime
  | .deliverSubmission env worker =>
      match getSingleUnpushedSubmission cfg env.plan env.queryTime worker.queueName t with
      | none => true
      | some s => leaseEnded cfg s.pullTime env.now
  | _ => true

/-! ## The leases of the rows that were given -/

/-- A row that was given has a lease that was taken no earlier. -/
structure GivenLog (cfg : Config) (gs : List (Nat × DateTime)) (t : Table) : Prop where
  apart : GivenApart cfg gs
  leased : ∀ x ∈ gs, ∃ s ∈ t, s.id = x.1 ∧
    ∃ timeField stored, s.time timeField = some stored ∧ x.2.micros ≤ stored.micros

/-- Both leases are over at the time. -/
def LeasesOver (cfg : Config) (s : Submission) (time : DateTime) : Prop :=
  ∀ timeField stored, s.time timeField = some stored →
    (stored.micros : Int) + cfg.submissionProcessingDelay ≤ time.micros

/-- The rows of `t` are still stored in `u`, with the leases that they had. -/
def LeasesKept (t u : Table) : Prop :=
  ∀ r ∈ t, ∃ r' ∈ u, r'.id = r.id ∧ ∀ timeField, r'.time timeField = r.time timeField

theorem GivenLog.kept (h : GivenLog cfg gs t) (hkept : LeasesKept t u) : GivenLog cfg gs u := by
  refine ⟨h.apart, ?_⟩
  intro x hx
  rcases h.leased x hx with ⟨s, hs, hid, timeField, stored, hstored, hle⟩
  rcases hkept s hs with ⟨r, hr, hrid, htimes⟩
  exact ⟨r, hr, hrid.trans hid, timeField, stored, (htimes timeField).trans hstored, hle⟩

/-- The instance takes the lease of the row at the time. -/
structure TakesLease (timeField : TimeField) (time : DateTime) (s c : Submission) : Prop where
  id : c.id = s.id
  taken : c.time timeField = some time
  other : ∀ other, other ≠ timeField → c.time other = s.time other
  later : ∀ stored, s.time timeField = some stored → stored.micros ≤ time.micros

theorem GivenLog.taken {timeField : TimeField} (now : DateTime) (h : GivenLog cfg gs t) (hs : s ∈ t)
    (hc : TakesLease timeField time s c) : GivenLog cfg gs (save now c t) := by
  refine ⟨h.apart, ?_⟩
  intro x hx
  rcases h.leased x hx with ⟨r, hr, hid, field, stored, hstored, hle⟩
  by_cases hrs : r.id = s.id
  · have : r = s := KeyedTable.eq_of_key_eq hr hs hrs
    subst this
    refine ⟨c, (mem_save_of_mem hs hc.id).2 (Or.inl rfl), hc.id.trans hid, ?_⟩
    by_cases hfield : field = timeField
    · subst hfield
      exact ⟨field, time, hc.taken, Nat.le_trans hle (hc.later stored hstored)⟩
    · exact ⟨field, stored, (hc.other field hfield).trans hstored, hle⟩
  · exact ⟨r, (mem_save_of_mem hs hc.id).2 (Or.inr ⟨hr, hrs⟩), hid, field, stored, hstored, hle⟩

/-- The row is given when its leases are over. -/
theorem GivenLog.given {timeField : TimeField} (now : DateTime) (h : GivenLog cfg gs t) (hs : s ∈ t)
    (hc : TakesLease timeField time s c) (hover : LeasesOver cfg s time) :
    GivenLog cfg (gs ++ [(s.id, time)]) (save now c t) := by
  have hsaved := h.taken now hs hc
  refine ⟨?_, ?_⟩
  · rw [GivenApart, List.pairwise_append]
    refine ⟨h.apart, List.pairwise_singleton _ _, ?_⟩
    intro x hx y hy hid
    rw [List.mem_singleton.1 hy] at hid ⊢
    rcases h.leased x hx with ⟨r, hr, hrid, field, stored, hstored, hle⟩
    have : r = s := KeyedTable.eq_of_key_eq hr hs (hrid.trans hid)
    subst this
    left
    calc
      (x.2.micros : Int) + cfg.submissionProcessingDelay
          ≤ stored.micros + cfg.submissionProcessingDelay := by omega
      _ ≤ time.micros := hover field stored hstored
  · intro x hx
    rcases List.mem_append.1 hx with hx | hx
    · exact hsaved.leased x hx
    · rw [List.mem_singleton.1 hx]
      exact ⟨c, (mem_save_of_mem hs hc.id).2 (Or.inl rfl), hc.id, timeField, time, hc.taken,
        Nat.le_refl _⟩

/-! ## What an event does to the leases -/

theorem LeasesKept.refl (t : Table) : LeasesKept t t :=
  fun r hr => ⟨r, hr, rfl, fun _ => rfl⟩

theorem LeasesKept.trans {v : Table} (h : LeasesKept t u) (h' : LeasesKept u v) : LeasesKept t v := by
  intro r hr
  rcases h r hr with ⟨r', hr', hid, htimes⟩
  rcases h' r' hr' with ⟨r'', hr'', hid', htimes'⟩
  exact ⟨r'', hr'', hid'.trans hid, fun field => (htimes' field).trans (htimes field)⟩

/-- Neither a pull nor a push. -/
def Task.IsQuiet : Task → Prop
  | .pull _ => False
  | .push _ => False
  | _ => True

theorem time_of_work {task : Task} {env : WorkEnv} {os : List Output} (htask : task.IsQuiet)
    (h : task.work cfg env s = (os, .ok c)) (timeField : TimeField) :
    c.time timeField = s.time timeField := by
  cases writes_of_work h with
  | pulled => exact htask.elim
  | graded => exact htask.elim
  | ungraded => exact htask.elim
  | _ => cases timeField <;> rfl

theorem leasesKept_moved {performs : Performs} {v : Table} {o : List Output}
    (hquiet : ∀ task env s, performs task env s → task.IsQuiet) (hm : Moved cfg performs u v o) :
    LeasesKept u v ∧ o.filterMap e.given = [] := by
  have hnone : ∀ {task : Task} {env : WorkEnv} {s : Submission} {os : List Output}
      {result : Except PyExc Submission}, task.IsQuiet → task.work cfg env s = (os, result) →
        os.filterMap e.given = [] := by
    intro task env s os result htask hwork
    rw [List.filterMap_eq_nil_iff]
    intro o ho
    cases emits_of_work hwork ho with
    | pushed => exact htask.elim
    | _ => rfl
  cases hm with
  | raised hs hp hwork => exact ⟨LeasesKept.refl u, hnone (hquiet _ _ _ hp) hwork⟩
  | undone => exact ⟨LeasesKept.refl u, rfl⟩
  | @saved task env s c os fetch now hs hp hwork =>
      have htask := hquiet _ _ _ hp
      have hreplies : task.replies fetch c = [] := by
        cases task with
        | pull => exact htask.elim
        | _ => rfl
      refine ⟨?_, by simpa [hreplies] using hnone htask hwork⟩
      intro r hr
      by_cases hid : r.id = s.id
      · rw [KeyedTable.eq_of_key_eq hr hs hid]
        exact ⟨c, (mem_save_worked hs hwork).2 (Or.inl rfl), id_of_work hwork, time_of_work htask hwork⟩
      · exact ⟨r, (mem_save_worked hs hwork).2 (Or.inr ⟨hr, hid⟩), rfl, fun _ => rfl⟩
  | superseded callback =>
      refine ⟨?_, rfl⟩
      intro r hr
      refine ⟨_, mem_invalidate.2 ⟨r, hr, rfl⟩, ?_⟩
      split
      · exact ⟨rfl, fun field => by cases field <;> rfl⟩
      · exact ⟨rfl, fun _ => rfl⟩
  | inserted =>
      exact ⟨fun r hr => ⟨r, KeyedTable.mem_insert.2 (Or.inl hr), rfl, fun _ => rfl⟩, rfl⟩

/-- An event that neither pulls nor pushes keeps the leases and gives nothing. -/
theorem leasesKept_run (cfg : Config)
    (hquiet : ∀ task env s, e.Performs cfg t task env s → task.IsQuiet) :
    LeasesKept t (e.run cfg t).1 ∧ (e.run cfg t).2.filterMap e.given = [] := by
  refine event_invariant (I := fun os u => LeasesKept t u ∧ os.filterMap e.given = [])
    ⟨LeasesKept.refl t, rfl⟩ ?_
  intro os u v o hI hm
  rcases leasesKept_moved (e := e) hquiet hm with ⟨hkept, hnone⟩
  exact ⟨hI.1.trans hkept, by rw [List.filterMap_append, hI.2, hnone]; rfl⟩

theorem givenLog_getSubmission {env : PullEnv} {request : HttpRequest}
    (hdelay : 0 < cfg.submissionProcessingDelay) (h : GivenLog cfg gs t)
    (hclock : env.queryTime ≤ env.pullTime)
    (hfinds : findsLeaseEnded cfg t (.getSubmission env request) = true) :
    GivenLog cfg (gs ++ (getSubmission cfg env request t).outputs.filterMap
      (Event.getSubmission env request).given) (getSubmission cfg env request t).table := by
  have hcases := pulled_getSubmission cfg env request t
  generalize getSubmission cfg env request t = ended at hcases
  cases hcases with
  | refused => simpa using h
  | empty => simpa using h
  | @served queueName s hchecks hget =>
      have hs := mem_of_getSingleSubmission hget
      have hpull := leaseEnded_of_available (isAvailable_of_getSingleSubmission hget) hclock
      have hpush : ∀ stored, s.time .pushTime = some stored →
          (stored.micros : Int) + cfg.submissionProcessingDelay ≤ env.pullTime.micros := by
        simp only [findsLeaseEnded, hchecks, hget] at hfinds
        exact leaseEnded_iff.1 hfinds
      have htakes : TakesLease .pullTime env.pullTime s (s.pulled cfg request env.pullTime) := by
        refine ⟨rfl, rfl, ?_, ?_⟩
        · intro other hne
          cases other with
          | pullTime => exact absurd rfl hne
          | pushTime => rfl
        · intro stored hstored
          have := hpull stored hstored
          omega
      have hover : LeasesOver cfg s env.pullTime := by
        intro field stored hstored
        cases field with
        | pullTime => exact hpull stored hstored
        | pushTime => exact hpush stored hstored
      have htaken := h.taken env.pullTime hs htakes
      have hgiven := h.given env.pullTime hs htakes hover
      unfold servePull
      split
      · -- a success reply gives the row
        rename_i response _
        cases hsuccess : response.isSuccess with
        | true => simpa [Event.given, handedOut, hsuccess, Submission.pulled] using hgiven
        | false => simpa [Event.given, handedOut, hsuccess] using htaken
      · rename_i e _
        have hnone : (Event.getSubmission env request).given
            (.pulled (s.pulled cfg request env.pullTime) (.error e)) = none := rfl
        split
        · simpa using h
        · simpa [hnone] using htaken

theorem givenLog_deliverSubmission {env : PushEnv} {worker : Worker}
    (hdelay : 0 < cfg.submissionProcessingDelay) (h : GivenLog cfg gs t)
    (hclock : env.queryTime ≤ env.now)
    (hresult : (worker.deliverSubmission cfg env t).result = .ok ())
    (hfinds : findsLeaseEnded cfg t (.deliverSubmission env worker) = true) :
    GivenLog cfg (gs ++ (worker.deliverSubmission cfg env t).outputs.filterMap
      (Event.deliverSubmission env worker).given) (worker.deliverSubmission cfg env t).table := by
  have hcases := pushed_deliverSubmission cfg env worker t
  generalize worker.deliverSubmission cfg env t = ended at hcases hresult
  cases hcases with
  | idle => simpa using h
  | raised => cases hresult
  | @saved s c os hget hwork =>
      have hs := mem_of_getSingleSubmission hget
      have hpush := leaseEnded_of_available (isAvailable_of_getSingleSubmission hget) hclock
      have hpull : ∀ stored, s.time .pullTime = some stored →
          (stored.micros : Int) + cfg.submissionProcessingDelay ≤ env.now.micros := by
        simp only [findsLeaseEnded, hget] at hfinds
        exact leaseEnded_iff.1 hfinds
      have hover : LeasesOver cfg s env.now := by
        intro field stored hstored
        cases field with
        | pullTime => exact hpull stored hstored
        | pushTime => exact hpush stored hstored
      rcases pushed_of_work cfg hwork with ⟨body, graderReply, numFailures, acked, rfl, rfl⟩
      have htakes : TakesLease .pushTime env.now s
          (s.pushed worker env.toWorkEnv graderReply numFailures acked) := by
        refine ⟨rfl, rfl, ?_, ?_⟩
        · intro other hne
          cases other with
          | pushTime => exact absurd rfl hne
          | pullTime => rfl
        · intro stored hstored
          have := hpush stored hstored
          omega
      have hgiven := h.given env.returnTime hs htakes hover
      have hnone : handedOut (.delivered (s.deliver env.lms body)) = none := rfl
      simpa [Event.given, Event.postTime, pushOutput, List.filterMap_cons, hnone] using hgiven

/-- A service operation whose pulls and pushes find both leases of their row over. -/
def meetsLeases (cfg : Config) (t : Table) (e : Event) : Bool :=
  completes cfg t e && findsLeaseEnded cfg t e

theorem givenLog_step (hdelay : 0 < cfg.submissionProcessingDelay)
    (hclock : e.readings.Pairwise (· ≤ ·)) (h : GivenLog cfg gs t)
    (hok : meetsLeases cfg t e = true) :
    GivenLog cfg (gs ++ (e.run cfg t).2.filterMap e.given) (e.run cfg t).1 := by
  rw [meetsLeases, Bool.and_eq_true] at hok
  have hkept : (∀ task env s, e.Performs cfg t task env s → task.IsQuiet) →
      GivenLog cfg (gs ++ (e.run cfg t).2.filterMap e.given) (e.run cfg t).1 := by
    intro hquiet
    rcases leasesKept_run cfg hquiet with ⟨hleases, hnone⟩
    rw [hnone, List.append_nil]
    exact h.kept hleases
  cases e with
  | getSubmission env request =>
      have hle : env.queryTime ≤ env.pullTime := by simpa [Event.readings] using hclock
      exact givenLog_getSubmission hdelay h hle hok.2
  | deliverSubmission env worker =>
      have hle : env.queryTime ≤ env.now := by
        have hpair : env.queryTime ≤ env.now ∧ env.queryTime ≤ env.returnTime := by
          simpa [Event.readings] using (List.pairwise_cons.1 hclock).1
        exact hpair.1
      have hresult : (worker.deliverSubmission cfg env t).result = .ok () := by
        have hcompletes := hok.1
        simp only [completes] at hcompletes
        split at hcompletes
        · assumption
        · cases hcompletes
      exact givenLog_deliverSubmission hdelay h hle hresult hok.2
  | submit storage env request => exact hkept fun _ _ _ hp => hp.elim
  | putResult env request =>
      refine hkept ?_
      rintro task env' s ⟨-, graderReply, rfl, -⟩
      trivial
  | retireFailedSubmissions env force queueNames =>
      refine hkept ?_
      rintro task env' s ⟨rfl, -⟩
      trivial
  | retireOldSubmissions env queueName retireBefore =>
      refine hkept ?_
      rintro task env' s ⟨rfl, -⟩
      trivial

/-- In every run of the service, by a clock that does not go back, whose pulls and pushes find
both leases of their row over, no submission is given twice within a delay. -/
theorem both_leases_exclusive {es : List Event} (hdelay : 0 < cfg.submissionProcessingDelay)
    (hclock : (es.flatMap Event.readings).Pairwise (· ≤ ·))
    (h : Run (givingSystem cfg) (fun t e => meetsLeases cfg t e = true) KeyedTable.empty es gs t) :
    GivenApart cfg gs := by
  have heach : ∀ e ∈ es, e.readings.Pairwise (· ≤ ·) :=
    fun e he => (List.pairwise_flatMap.1 hclock).1 e he
  have hlog : GivenLog cfg gs t := by
    refine (h.and_forall_mem heach).invariant (I := GivenLog cfg) ⟨List.Pairwise.nil, by simp⟩ ?_
    intro gs t e u g hI hok hstep
    simp only [givingSystem, Option.some.injEq, Prod.mk.injEq] at hstep
    rcases hstep with ⟨rfl, rfl⟩
    exact givenLog_step hdelay hok.2 hI hok.1
  exact hlog.apart

/-- A pull, a pull by another grader when its lease is over, and a push after that one. -/
def leasesInTurn : List Event :=
  [.submit pathStorage ⟨clockAt 0, clockAt 0, true⟩ (jobFor (py "/lms/1/problem")),
    .getSubmission ⟨.insertion, clockAt 1, clockAt 1, .timeout⟩ (pullRequest (py "test-pull")),
    .getSubmission ⟨.insertion, clockAt 2, clockAt 2, .timeout⟩ (pullRequest (py "test-pull")),
    .deliverSubmission ⟨⟨clockAt 3, clockAt 3, .response 200 (py "graded"), fun _ => .response 200 []⟩,
      .insertion, clockAt 3⟩ ⟨py "test-pull", py "http://127.0.0.1:12348"⟩]

theorem leasesInTurn_runs : ((givingSystem pushSettings).execWhile (meetsLeases pushSettings)
    KeyedTable.empty leasesInTurn).isSome := by
  decide +kernel

theorem both_leases_exclusive_inTurn :
    let gs := (((givingSystem pushSettings).execWhile (meetsLeases pushSettings) KeyedTable.empty
      leasesInTurn).get leasesInTurn_runs).2
    GivenApart pushSettings gs ∧ gs = [(1, clockAt 1), (1, clockAt 2), (1, clockAt 3)] :=
  ⟨both_leases_exclusive (by decide) (by decide +kernel) (run_get_while leasesInTurn_runs),
    by decide +kernel⟩

/-- A grader pulls the submission and the worker pushes it in the same minute. -/
def pulledThenPushed : List Event :=
  [.submit pathStorage ⟨clockAt 0, clockAt 0, true⟩ (jobFor (py "/lms/1/problem")),
    .getSubmission ⟨.insertion, clockAt 1, clockAt 1, .timeout⟩ (pullRequest (py "test-pull")),
    .deliverSubmission ⟨⟨clockAt 1, clockAt 1, .response 200 (py "graded"), fun _ => .response 200 []⟩,
      .insertion, clockAt 1⟩ ⟨py "test-pull", py "http://127.0.0.1:12348"⟩]

theorem pulledThenPushed_runs : ((givingSystem pushSettings).execWhile (completes pushSettings)
    KeyedTable.empty pulledThenPushed).isSome := by
  decide +kernel

/-- Both graders are given the submission. -/
theorem pulled_and_pushed :
    ¬ (∀ es gs t, (es.flatMap Event.readings).Pairwise (· ≤ ·) →
      Run (givingSystem pushSettings) (fun t e => completes pushSettings t e = true)
        KeyedTable.empty es gs t → GivenApart pushSettings gs) := by
  intro h
  have := h _ _ _ (by decide +kernel) (run_get_while pulledThenPushed_runs)
  revert this
  decide +kernel

end Xqueue
