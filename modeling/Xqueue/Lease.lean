import Xqueue.Deployment
import Xqueue.Interleaved

/-!
# Lease — the pull lease under concurrency

A pulled submission is hidden for `SUBMISSION_PROCESSING_DELAY`.  The row is read without a
lock and saved later, so two graders can read the same row before either saves it.

* `LeaseExclusive` : no two successful replies hand out one row less than a delay apart;
* `PullState`, `pullSystem` : the interleaved pulls, with the clock and the pulls that another one
  has overtaken;
* `leases_exclusive` : the leases are exclusive if no overtaken pull saves (`savesInTurn`), by the
  time filter that the row has passed when it was read;
* `double_pull` : they are not when two pulls read the row before one of them saves it.
-/

namespace Xqueue

open Library
open Library.System

/-- A step of a `get_submission` request: its read, its assignments, its save. -/
def Act.isPullStep : Act → Bool
  | .getSubmission _ _ _ => true
  | .work _ => true
  | .save _ _ => true
  | _ => false

def Act.isRead : Act → Bool
  | .getSubmission _ _ _ => true
  | _ => false

/-- The clock reading of a step, if it takes one. -/
def Act.reading : Act → Option DateTime
  | .getSubmission _ _ queryTime => some queryTime
  | .work env => some env.now
  | .save _ now => some now
  | _ => none

/-- The submission and the pull time of a successful reply. -/
def handedOut : Output → Option (Nat × DateTime)
  | .pulled row (.ok response) =>
      if response.isSuccess then row.pullTime.map (fun time => (row.id, time)) else none
  | _ => none

/-- Two pull times are at least a delay apart. -/
def DelayApart (cfg : Config) (s t : DateTime) : Prop :=
  (s.micros : Int) + cfg.submissionProcessingDelay ≤ t.micros ∨
    (t.micros : Int) + cfg.submissionProcessingDelay ≤ s.micros

instance (cfg : Config) (s t : DateTime) : Decidable (DelayApart cfg s t) :=
  inferInstanceAs (Decidable (_ ∨ _))

/-- No two successful replies hand out the same submission less than a delay apart. -/
def LeaseExclusive (cfg : Config) (os : List Output) : Prop :=
  (os.filterMap handedOut).Pairwise (fun x y => x.1 = y.1 → DelayApart cfg x.2 y.2)

instance (cfg : Config) (os : List Output) : Decidable (LeaseExclusive cfg os) :=
  inferInstanceAs (Decidable (List.Pairwise _ _))

/-! ## The clock, and the pulls that are overtaken -/

/-- The row of which a process holds an instance. -/
def Proc.held : Proc → Option Nat
  | .working _ s _ => some s.id
  | .saving _ c _ => some c.id
  | _ => none

/-- The output is the save of a pull, and the process holds an older copy of the row. -/
def Proc.isOvertakenBy (p : Proc) : Output → Bool
  | .pulled row _ => p.held == some row.id
  | _ => false

structure PullState where
  state : State
  /-- The latest reading of the clock. -/
  clock : DateTime
  /-- Another pull of the row has been saved since the process read it. -/
  overtaken : Nat → Bool

/-- Every process idle. -/
def PullState.start (clock : DateTime) (t : Table) : PullState where
  state := State.start t
  clock := clock
  overtaken := fun _ => false

def PullState.step (cfg : Config) (st : PullState) (a : Nat × Act) :
    Option (PullState × List Output) :=
  match st.state.step cfg a with
  | none => none
  | some (state, outputs) =>
      let overtaken := fun pid =>
        -- a read takes a fresh copy
        if pid = a.1 then !a.2.isRead && st.overtaken pid
        else st.overtaken pid || outputs.any (st.state.proc pid).isOvertakenBy
      some (⟨state, a.2.reading.getD st.clock, overtaken⟩, outputs)

/-- The steps of the processes, with what is to be known of their order. -/
def pullSystem (cfg : Config) : System PullState (Nat × Act) Output where
  step := PullState.step cfg

/-- A step of a pull under a clock that does not go back, and no save by a pull that another pull
of the row has overtaken. -/
def savesInTurn (st : PullState) (a : Nat × Act) : Bool :=
  a.2.isPullStep && decide (st.clock ≤ a.2.reading.getD st.clock) &&
    match a.2 with
    | .save _ _ => !st.overtaken a.1
    | _ => true

theorem savesInTurn_iff {st : PullState} {pid : Nat} {a : Act} : savesInTurn st (pid, a) = true ↔
    a.isPullStep = true ∧ st.clock ≤ a.reading.getD st.clock ∧
      ∀ fetch now, a = .save fetch now → st.overtaken pid = false := by
  cases a <;> simp [savesInTurn, and_assoc]

/-! ## The steps of a pull -/

variable {cfg : Config} {free : Nat → Bool} {t t' : Table} {p p' : Proc} {a : Act}
  {os : List Output} {s c : Submission} {time now : DateTime}

/-- No lease of the row is running at the time. -/
def LeaseOver (cfg : Config) (t : Table) (id : Nat) (time : DateTime) : Prop :=
  ∀ r ∈ t, r.id = id → ∀ stored, r.pullTime = some stored →
    (stored.micros : Int) + cfg.submissionProcessingDelay ≤ time.micros

theorem LeaseOver.mono {id : Nat} (h : LeaseOver cfg t id now) (hle : now ≤ time) :
    LeaseOver cfg t id time := by
  intro r hr hid stored hstored
  have hover := h r hr hid stored hstored
  have hmicros : now.micros ≤ time.micros := DateTime.le_iff.1 hle
  omega

/-- The lease that a query found over is over when the row is taken. -/
theorem leaseEnded_of_available {timeField : TimeField} {queryTime : DateTime} {queueName : PyStr}
    (hav : isAvailable cfg queryTime timeField queueName s = true) (hle : queryTime ≤ time) :
    ∀ stored, s.time timeField = some stored →
      (stored.micros : Int) + cfg.submissionProcessingDelay ≤ time.micros := by
  intro stored hstored
  have hfilter := (isAvailable_iff.1 hav).1
  simp only [timeFilter, hstored, decide_eq_true_eq] at hfilter
  have hle' : queryTime.micros ≤ time.micros := DateTime.le_iff.1 hle
  omega

/-- The row that a pull reads has passed the time filter. -/
theorem leaseOver_of_read {plan : QueryPlan} {queryTime : DateTime} {queueName : PyStr}
    (h : getSingleUnretiredSubmission cfg plan queryTime queueName t = some s) :
    LeaseOver cfg t s.id queryTime := by
  intro r hr hid stored hstored
  have hrs : r = s := KeyedTable.eq_of_key_eq hr (mem_of_getSingleSubmission h) hid
  rw [hrs] at hstored
  exact leaseEnded_of_available (isAvailable_of_getSingleSubmission h) (le_refl _) stored hstored

/-- What a process is when it only pulls: a changed instance has its pull time. -/
def Proc.Pulls : Proc → Prop
  | .idle => True
  | .working (.pull _) _ rest => rest = ⟨[], []⟩
  | .saving (.pull _) c rest => rest = ⟨[], []⟩ ∧ ∃ time, c.pullTime = some time
  | _ => False

/-- The effects of the steps of a pull. -/
inductive PullActed (cfg : Config) (t : Table) : Act → Proc → Table → Proc → List Output → Prop
  | undone {a : Act} {p : Proc} : PullActed cfg t a p t .idle []
  | read {request : HttpRequest} {plan : QueryPlan} {queryTime : DateTime} {s : Submission} :
      LeaseOver cfg t s.id queryTime →
        PullActed cfg t (.getSubmission request plan queryTime) .idle
          t (.working (.pull request) s ⟨[], []⟩) []
  | assigned {request : HttpRequest} {env : WorkEnv} {s c : Submission} :
      c.id = s.id → c.pullTime = some env.now →
        PullActed cfg t (.work env) (.working (.pull request) s ⟨[], []⟩)
          t (.saving (.pull request) c ⟨[], []⟩) []
  | saved {request : HttpRequest} {fetch : HttpResult} {now time : DateTime} {c : Submission}
      (response : Except PyExc HttpResponse) : c.pullTime = some time →
        PullActed cfg t (.save fetch now) (.saving (.pull request) c ⟨[], []⟩)
          (save now c t) .idle [.pulled c response]

theorem pullActed_of_act (hp : p.Pulls) (ha : a.isPullStep = true)
    (h : p.act cfg free t a = some (t', p', os)) : PullActed cfg t a p t' p' os := by
  cases p with
  | idle =>
      cases a with
      | getSubmission request plan queryTime =>
          simp only [Proc.act] at h
          split at h
          · cases h
            exact PullActed.undone
          · split at h
            · cases h
              exact PullActed.undone
            · rename_i hget
              cases h
              exact PullActed.read (leaseOver_of_read hget)
      | work env => simp [Proc.act] at h
      | save fetch now => simp [Proc.act] at h
      | _ => simp [Act.isPullStep] at ha
  | working task s rest =>
      cases task with
      | pull request =>
          cases hp
          cases a with
          | work env =>
              simp only [Proc.act, Task.work, pull_eq_ok, Option.some.injEq, Prod.mk.injEq] at h
              rcases h with ⟨rfl, rfl, rfl⟩
              exact PullActed.assigned rfl rfl
          | getSubmission request plan queryTime => simp [Proc.act] at h
          | save fetch now => simp [Proc.act] at h
          | _ => simp [Act.isPullStep] at ha
      | _ => exact hp.elim
  | saving task c rest =>
      cases task with
      | pull request =>
          rcases hp with ⟨rfl, time, htime⟩
          cases a with
          | save fetch now =>
              simp only [Proc.act] at h
              split at h
              · simp only [Option.some.injEq, Prod.mk.injEq, Task.finish, servePull, Task.resume] at h
                rcases h with ⟨rfl, rfl, rfl⟩
                split
                · exact PullActed.saved _ htime
                · split
                  · exact PullActed.undone
                  · exact PullActed.saved _ htime
              · cases h
          | getSubmission request plan queryTime => simp [Proc.act] at h
          | work env => simp [Proc.act] at h
          | _ => simp [Act.isPullStep] at ha
      | _ => exact hp.elim
  | _ => exact hp.elim

theorem PullActed.pulls (h : PullActed cfg t a p t' p' os) : p'.Pulls := by
  cases h with
  | undone => trivial
  | read _ => rfl
  | assigned _ htime => exact ⟨rfl, _, htime⟩
  | saved _ _ => trivial

/-! ## Exclusive leases -/

/-- The lease of the row that the process holds is over: at the latest reading of the clock, and
once the pull time has been assigned, at the pull time. -/
def Proc.Fresh (cfg : Config) (t : Table) (clock : DateTime) : Proc → Prop
  | .working _ s _ => LeaseOver cfg t s.id clock
  | .saving _ c _ => ∀ time, c.pullTime = some time → LeaseOver cfg t c.id time
  | _ => True

theorem Proc.Fresh.mono (h : p.Fresh cfg t now) (hle : now ≤ time) : p.Fresh cfg t time := by
  cases p with
  | working task s rest => exact LeaseOver.mono h hle
  | saving task c rest => exact h
  | _ => trivial

/-- The save of another row. -/
theorem Proc.Fresh.saved {row : Submission} {response : Except PyExc HttpResponse}
    (h : p.Fresh cfg t time) (hother : p.isOvertakenBy (.pulled row response) = false) :
    p.Fresh cfg (save now row t) time := by
  have hkept : ∀ {id : Nat} {time : DateTime}, id ≠ row.id → LeaseOver cfg t id time →
      LeaseOver cfg (save now row t) id time := by
    intro id time hne hover r hr hid
    rcases mem_save.1 hr with rfl | ⟨hr, -⟩
    · rw [id_asStored] at hid
      exact absurd hid.symm hne
    · exact hover r hr hid
  cases p with
  | working task s rest =>
      have hne : s.id ≠ row.id := by simpa [Proc.isOvertakenBy, Proc.held] using hother
      exact hkept hne h
  | saving task c rest =>
      have hne : c.id ≠ row.id := by simpa [Proc.isOvertakenBy, Proc.held] using hother
      exact fun time htime => hkept hne (h time htime)
  | _ => trivial

/-- What the replies so far say about the stored rows: a row that was handed out is stored with
a pull time no earlier. -/
structure HandedOut (cfg : Config) (os : List Output) (t : Table) : Prop where
  exclusive : LeaseExclusive cfg os
  stored : ∀ x ∈ os.filterMap handedOut,
    ∃ s ∈ t, s.id = x.1 ∧ ∃ q, s.pullTime = some q ∧ x.2.micros ≤ q.micros

theorem handedOut_pulled {c : Submission} {time : DateTime} {response : Except PyExc HttpResponse}
    {x : Nat × DateTime} (htime : c.pullTime = some time)
    (h : handedOut (Output.pulled c response) = some x) : x = (c.id, time) := by
  cases response with
  | error e => simp [handedOut] at h
  | ok response =>
      simp only [handedOut, htime, Option.map_some] at h
      split at h
      · exact (Option.some.inj h).symm
      · cases h

theorem HandedOut.saved (response : Except PyExc HttpResponse)
    (hdelay : 0 < cfg.submissionProcessingDelay) (h : HandedOut cfg os t)
    (htime : c.pullTime = some time) (hover : LeaseOver cfg t c.id time) :
    HandedOut cfg (os ++ [.pulled c response]) (save now c t) := by
  have hsaved : ∃ s ∈ save now c t, s.id = c.id ∧ s.pullTime = some time := by
    refine ⟨asStored now c t, mem_save.2 (Or.inl rfl), id_asStored, ?_⟩
    rcases asStored_cases now c t with heq | heq
    · rw [heq]
      exact htime
    · rw [heq]
      exact htime
  -- the new output hands out the saved instance, if anything
  have hlast : ∀ y ∈ [Output.pulled c response].filterMap handedOut, y = (c.id, time) := by
    intro y hy
    rcases List.mem_filterMap.1 hy with ⟨z, hz, hzy⟩
    rw [List.mem_singleton.1 hz] at hzy
    exact handedOut_pulled htime hzy
  constructor
  · rw [LeaseExclusive, List.filterMap_append, List.pairwise_append]
    refine ⟨h.exclusive, ?_, ?_⟩
    · -- a single reply
      cases hout : handedOut (Output.pulled c response) with
      | none => simp [hout]
      | some x => simp [hout]
    · -- an earlier reply and the new one
      intro x hx y hy hid
      rw [hlast y hy] at hid ⊢
      rcases h.stored x hx with ⟨s, hs, hsid, q, hq, hle⟩
      have hfree := hover s hs (hsid.trans hid) q hq
      left
      calc
        (x.2.micros : Int) + cfg.submissionProcessingDelay
            ≤ q.micros + cfg.submissionProcessingDelay := by omega
        _ ≤ time.micros := hfree
  · rw [List.filterMap_append]
    intro x hx
    rcases List.mem_append.1 hx with hx | hx
    · rcases h.stored x hx with ⟨s, hs, hsid, q, hq, hle⟩
      by_cases hid : s.id = c.id
      · -- the row is overwritten with a later pull time
        rcases hsaved with ⟨s', hs', hsid', hs'time⟩
        have hfree := hover s hs hid q hq
        exact ⟨s', hs', by rw [hsid', ← hid, hsid], time, hs'time, by omega⟩
      · exact ⟨s, mem_save.2 (Or.inr ⟨hs, hid⟩), hsid, q, hq, hle⟩
    · rw [hlast x hx]
      rcases hsaved with ⟨s', hs', hsid', hs'time⟩
      exact ⟨s', hs', hsid', time, hs'time, Nat.le_refl _⟩

/-- The replies so far, and a pull that nobody has overtaken still finds the lease of its row over. -/
structure Leased (cfg : Config) (os : List Output) (st : PullState) : Prop where
  pulls : ∀ pid, (st.state.proc pid).Pulls
  handedOut : HandedOut cfg os st.state.table
  fresh : ∀ pid, st.overtaken pid = false →
    (st.state.proc pid).Fresh cfg st.state.table st.clock

theorem leased_start : Leased cfg [] (PullState.start now t) where
  pulls := fun _ => trivial
  handedOut := ⟨List.Pairwise.nil, by simp⟩
  fresh := fun _ _ => trivial

theorem leased_step {st st' : PullState} {o : List Output} {pid : Nat}
    (hdelay : 0 < cfg.submissionProcessingDelay) (h : Leased cfg o st)
    (hok : savesInTurn st (pid, a) = true) (hstep : st.step cfg (pid, a) = some (st', os)) :
    Leased cfg (o ++ os) st' := by
  rcases savesInTurn_iff.1 hok with ⟨hpull, hclock, hturn⟩
  simp only [PullState.step, State.step] at hstep
  rcases hact : (st.state.proc pid).act cfg (st.state.free pid) st.state.table a with
    _ | ⟨t, p, outputs⟩
  · simp [hact] at hstep
  · simp only [hact, Option.some.injEq, Prod.mk.injEq] at hstep
    rcases hstep with ⟨rfl, rfl⟩
    have hpulled := pullActed_of_act (h.pulls pid) hpull hact
    have hmine := h.fresh pid
    -- the process that steps, and the others, whose rows may have been saved
    suffices hnow : HandedOut cfg (o ++ outputs) t ∧
        ((!a.isRead && st.overtaken pid) = false → p.Fresh cfg t (a.reading.getD st.clock)) ∧
        (∀ q : Proc, q.Fresh cfg st.state.table st.clock → outputs.any q.isOvertakenBy = false →
          q.Fresh cfg t (a.reading.getD st.clock)) by
      refine ⟨fun q => ?_, hnow.1, fun q hq => ?_⟩
      · by_cases hpid : q = pid
        · subst hpid
          simpa using hpulled.pulls
        · simpa [Function.update_of_ne hpid] using h.pulls q
      · by_cases hpid : q = pid
        · subst hpid
          simp only [if_true] at hq
          simpa using hnow.2.1 hq
        · simp only [hpid, if_false, Bool.or_eq_false_iff] at hq
          simpa [Function.update_of_ne hpid] using hnow.2.2 _ (h.fresh q hq.1) hq.2
    generalize st.state.proc pid = p₀ at hpulled hmine
    cases hpulled with
    | undone =>
        refine ⟨by simpa using h.handedOut, fun _ => trivial, ?_⟩
        exact fun q hq _ => hq.mono hclock
    | read hover =>
        refine ⟨by simpa using h.handedOut, fun _ => hover, ?_⟩
        exact fun q hq _ => hq.mono hclock
    | @assigned request env s c hid htime =>
        refine ⟨by simpa using h.handedOut, ?_, fun q hq _ => hq.mono hclock⟩
        intro hnot time' htime'
        have hover : LeaseOver cfg st.state.table s.id st.clock := hmine hnot
        rw [htime, Option.some.injEq] at htime'
        rw [hid, ← htime']
        exact hover.mono hclock
    | @saved request fetch now time c response htime =>
        have hnot := hturn fetch now rfl
        have hover : LeaseOver cfg st.state.table c.id time := hmine hnot time htime
        refine ⟨h.handedOut.saved response hdelay htime hover, fun _ => trivial, ?_⟩
        intro q hq hother
        exact (hq.mono hclock).saved (by simpa using hother)

/-- Any number of interleaved pulls keep their leases exclusive under a clock that does not go back,
provided that no other pull of a row saves between the read and the save of a pull. -/
theorem leases_exclusive {clock : DateTime} {as : List (Nat × Act)} {st : PullState}
    (hdelay : 0 < cfg.submissionProcessingDelay)
    (h : Run (pullSystem cfg) (fun st a => savesInTurn st a = true) (PullState.start clock t) as os st) :
    LeaseExclusive cfg os := by
  have hI : Leased cfg os st := by
    refine h.invariant (I := Leased cfg) leased_start ?_
    rintro os st ⟨pid, a⟩ st' o hleased hok hstep
    exact leased_step hdelay hleased hok hstep
  exact hI.handedOut.exclusive

/-- Two graders read the row at the same time; the second also saves it. -/
def overlappingPulls : List (Nat × Act) :=
  let read := Act.getSubmission (pullRequest (py "test-pull")) .insertion (clockAt 1)
  let assign := Act.work ⟨clockAt 1, clockAt 1, .timeout, fun _ => .timeout⟩
  [(1, read), (2, read), (1, assign), (1, .save .timeout (clockAt 1)), (2, assign),
    (2, .save .timeout (clockAt 1))]

/-- Pulls of two jobs: the second one reads the first row as well, but does not save it, and the
third one begins before the first row is pulled again. -/
def pullsInTurn : List (Nat × Act) :=
  let read := fun minute => Act.getSubmission (pullRequest (py "test-pull")) .insertion (clockAt minute)
  let assign := fun minute => Act.work ⟨clockAt minute, clockAt minute, .timeout, fun _ => .timeout⟩
  [(1, read 1), (2, read 1), (1, assign 1), (1, .save .timeout (clockAt 1)), (2, assign 1),
    (3, read 1), (1, read 2), (3, assign 2), (1, assign 3), (3, .save .timeout (clockAt 3)),
    (1, .save .timeout (clockAt 3))]

theorem overlappingPulls_runs : ((interleavedSystem devSettings).exec (State.start pendingTable)
    overlappingPulls).isSome := by
  decide +kernel

theorem pullsInTurn_runs : ((pullSystem devSettings).execWhile savesInTurn
    (PullState.start (clockAt 1) twoJobs) pullsInTurn).isSome := by
  decide +kernel

/-- The first submission is handed out twice, two minutes apart. -/
theorem leases_exclusive_pullsInTurn :
    let os := (((pullSystem devSettings).execWhile savesInTurn (PullState.start (clockAt 1) twoJobs)
      pullsInTurn).get pullsInTurn_runs).2
    LeaseExclusive devSettings os ∧
      os.filterMap handedOut = [(1, clockAt 1), (2, clockAt 2), (1, clockAt 3)] :=
  ⟨leases_exclusive (by decide) (run_get_while pullsInTurn_runs), by decide +kernel⟩

/-- Both graders get the submission, at the same time. -/
theorem double_pull :
    ¬ (∀ t as os st, Run (interleavedSystem devSettings) (fun _ a => a.2.isPullStep = true)
        (State.start t) as os st →
      (as.filterMap (fun a => a.2.reading)).Pairwise (· ≤ ·) → LeaseExclusive devSettings os) := by
  intro h
  have hrun := (run_get overlappingPulls_runs).of_forall_mem
    (c := fun a => a.2.isPullStep = true) (by decide)
  have := h _ _ _ _ hrun (by decide +kernel)
  revert this
  decide +kernel

end Xqueue
