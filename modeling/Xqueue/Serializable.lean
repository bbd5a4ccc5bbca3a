import Xqueue.Isolation

/-!
# Serializable — interleavings without a stale save

The operations read a row, work, and save the whole instance.  If every process finds its row at
the end as it has read it, nothing is lost, and the interleaving is worth as much as the same
operations one after the other.

* `trackedSystem` : the interleaved system, which remembers the row that a process has worked on;
* `upToDate` : the step does not save, or save over, anything that has changed since the read;
* `wholeSystem` : read, work and save of a row as one step, a submit as two, a batch as one;
* `serializable_of_upToDate` : interleavings that are up to date, as runs of whole steps.
-/

namespace Xqueue

open Library
open Library.System

variable {cfg : Config} {t t' : Table} {p p' : Proc} {a : Act} {os : List Output} {s c : Submission}
  {st st' : State} {pid : Nat}

/-! ## What has been read -/

/-- The processes, and the row that each of them has worked on, as it was read. -/
structure Tracked where
  state : State
  copy : Nat → Option Submission

/-- The row that the process is about to work on, if it is at one. -/
def Proc.workedOn (p : Proc) (before : Option Submission) : Option Submission :=
  match p with
  | .working _ s _ => some s
  | _ => before

def trackedSystem (cfg : Config) : System Tracked (Nat × Act) Output where
  step := fun x a =>
    match x.state.step cfg a with
    | none => none
    | some (st, outputs) =>
        some (⟨st, Function.update x.copy a.1 ((x.state.proc a.1).workedOn (x.copy a.1))⟩, outputs)

/-- At the end of the work on a row, with a save or with an exception, the row is stored as it was
read.  A `put_result` has locked its row. -/
def upToDate (cfg : Config) (x : Tracked) (a : Nat × Act) : Bool :=
  match x.state.proc a.1, a.2 with
  | .working (.put _ _) _ _, _ => true
  | .saving (.put _ _) _ _, _ => true
  | .saving _ c _, _ => x.state.table.get? c.id == x.copy a.1
  | .working task s _, .work env =>
      match (task.work cfg env s).2 with
      | .error _ => x.state.table.get? s.id == some s
      | .ok _ => true
  | _, _ => true

/-! ## Whole steps -/

inductive Whole where
  | move (m : Move)
  | deleteBatch (ids : List Nat)

def wholeSystem (cfg : Config) : System Table (Nat × Whole) Output where
  step := fun t a =>
    match a.2 with
    | .move m => some (m.run cfg t)
    | .deleteBatch ids => some (deleteBatch ids t, [])

/-- A move on a stored row that its operation may read, or one of a submit. -/
def LegitWhole (cfg : Config) (t : Table) (a : Nat × Whole) : Prop :=
  match a.2 with
  | .move m => Legit cfg (fun task _ s => task.MayRead cfg s) t m
  | .deleteBatch _ => True

/-- What a process knows: the outputs `os` are those of the work that it has to save. -/
def Proc.InWork (cfg : Config) (os : List Output) (copy : Option Submission) : Proc → Prop
  | .submitting request valid callback => os = [] ∧ submitChecks cfg request = .ok valid ∧
      storedCallback cfg valid.lmsCallbackUrl = .ok callback
  | .working task s rest => os = [] ∧ ∀ r ∈ s :: rest.rows, task.MayRead cfg r
  | .saving task c rest => (∃ env s, copy = some s ∧ task.MayRead cfg s ∧
      task.work cfg env s = (os, .ok c)) ∧ ∀ r ∈ rest.rows, task.MayRead cfg r
  | _ => os = []

variable {copy : Option Submission}

theorem inWork_of_isEmpty (h : p.isEmpty = true) : p.InWork cfg [] copy := by
  cases p with
  | submitting request valid callback => cases h
  | working task s rest => cases h
  | saving task c rest => cases h
  | _ => rfl

theorem inWork_resume {task : Task} {rest : Rest} (h : ∀ r ∈ rest.rows, task.MayRead cfg r) :
    (task.resume rest).InWork cfg [] copy := by
  rcases rest with ⟨_ | ⟨s, rows⟩, scopes⟩
  · cases task <;> cases scopes <;> rfl
  · exact ⟨rfl, h⟩

/-- Only a process that has something to save has sent something. -/
theorem Proc.InWork.outputs (h : p.InWork cfg os copy) (hne : os ≠ []) :
    ∃ task c rest, p = .saving task c rest := by
  cases p with
  | submitting request valid callback => exact absurd h.1 hne
  | working task s rest => exact absurd h.1 hne
  | saving task c rest => exact ⟨task, c, rest, rfl⟩
  | _ => exact absurd h hne

/-! ## Following an interleaving -/

/-- The row that the process has locked is stored as it was read. -/
def Proc.Current (t : Table) (copy : Option Submission) : Proc → Prop
  | .working (.put _ _) s _ => s ∈ t
  | .saving (.put _ _) c _ => ∃ s ∈ t, s.id = c.id ∧ copy = some s
  | _ => True

theorem current_of_unlocked (h : p.locked = none) : p.Current t copy := by
  unfold Proc.Current
  split
  · cases h
  · cases h
  · trivial

theorem Proc.Current.mono (h : p.Current t copy) (hrow : ∀ s ∈ t, p.locked = some s.id → s ∈ t') :
    p.Current t' copy := by
  unfold Proc.Current at h ⊢
  split at h
  · exact hrow _ h rfl
  · rcases h with ⟨s, hs, hid, hcopy⟩
    exact ⟨s, hrow s hs (by rw [Proc.locked, hid]), hid, hcopy⟩
  · trivial

/-- The state of the tracked system, and the table on which the works in flight are still to come. -/
structure Serializes (cfg : Config) (x : Tracked) (pend : List (Nat × Output)) (u : Table) : Prop where
  table : u = x.state.table
  locks : Locks x.state
  current : ∀ pid, (x.state.proc pid).Current x.state.table (x.copy pid)
  inWork : ∀ pid, (x.state.proc pid).InWork cfg (held pend pid) (x.copy pid)

variable {x x' : Tracked} {pend pend' : List (Nat × Output)} {u : Table}

theorem serializes_start : Serializes cfg ⟨State.start t, fun _ => none⟩ [] t where
  table := rfl
  locks := locks_start
  current := fun _ => trivial
  inWork := fun _ => rfl

/-- A step of one process: the others know what they knew, and their rows are where they were. -/
theorem Serializes.next (h : Serializes cfg x pend u)
    (hstep : x.state.step cfg (pid, a) =
      some (⟨t, x.state.relock pid p, Function.update x.state.proc pid p⟩, os))
    (hact : (x.state.proc pid).act cfg (x.state.free pid) x.state.table a = some (t, p, os))
    (hcurrent : p.Current t copy) (hmine : p.InWork cfg (held pend' pid) copy)
    (hother : ∀ q, q ≠ pid → held pend' q = held pend q) :
    Serializes cfg ⟨⟨t, x.state.relock pid p, Function.update x.state.proc pid p⟩,
      Function.update x.copy pid copy⟩ pend' t := by
  refine ⟨rfl, h.locks.step hstep, fun q => ?_, fun q => ?_⟩
  · by_cases hq : q = pid
    · subst hq
      simpa using hcurrent
    · simp only [Function.update_of_ne hq]
      exact (h.current q).mono fun s hs hlocked =>
        mem_of_act hact hs (h.locks.free_eq_false hlocked hq)
  · by_cases hq : q = pid
    · subst hq
      simpa using hmine
    · simpa [Function.update_of_ne hq, hother q hq] using h.inWork q

/-- The row of the process, once it has moved. -/
theorem Serializes.current_step (h : Serializes cfg x pend u)
    (hact : (x.state.proc pid).act cfg (x.state.free pid) x.state.table a = some (t, p, os)) :
    p.Current t ((x.state.proc pid).workedOn (x.copy pid)) := by
  rcases put_of_act (h.locks.one pid) hact with hkeeps | ⟨request, graderReply, s, rfl, -, rfl, -, hchecks⟩
  · rcases hlocked : p.locked with _ | id
    · exact current_of_unlocked hlocked
    · -- the lock has been kept from the read to the save
      have hcurrent := h.current pid
      rcases put_of_locked (hkeeps.locked id hlocked) with ⟨request, graderReply, s, rest, -, hp | hp⟩
      · rw [hp] at hact hcurrent ⊢
        cases a with
        | work env =>
            rcases hwork : (Task.put request graderReply).work cfg env s with ⟨outputs, e | c⟩
            · simp only [Proc.act, hwork, Option.some.injEq, Prod.mk.injEq] at hact
              rcases hact with ⟨rfl, rfl, rfl⟩
              trivial
            · simp only [Proc.act, hwork, Option.some.injEq, Prod.mk.injEq] at hact
              rcases hact with ⟨rfl, rfl, rfl⟩
              exact ⟨s, hcurrent, (id_of_work hwork).symm, rfl⟩
        | _ => cases hact
      · have hone := h.locks.one pid
        rw [hp] at hact hone
        cases hone
        cases a with
        | save fetch now =>
            simp only [Proc.act] at hact
            split at hact
            · cases hact
              trivial
            · cases hact
        | _ => cases hact
  · exact (putResultChecks_iff_sends.1 hchecks).1

/-- What one step makes of the outputs held back and of the other table. -/
abbrev Answers (cfg : Config) (pid : Nat) (os : List Output) (pend : List (Nat × Output)) (u : Table)
    (p : Proc) (copy : Option Submission) (t : Table) : Prop :=
  ∃ bs pend', Follows (wholeSystem cfg) (LegitWhole cfg) Prod.fst pid os pend u bs pend' t ∧
    p.InWork cfg (held pend' pid) copy ∧ ∀ q, q ≠ pid → held pend' q = held pend q

/-- A step that does not touch the table and emits nothing. -/
theorem answers_quiet (hheld : held pend pid = []) (hp : p.InWork cfg [] copy) :
    Answers cfg pid [] pend u p copy u := by
  refine ⟨[], defer pend pid [], Follows.defers, ?_, fun q hq => held_defer_of_ne hq⟩
  rwa [held_defer, hheld, List.append_nil]

/-- A step that completes a whole step. -/
theorem answers_commit {b : Whole} (hlegit : LegitWhole cfg u (pid, b))
    (hs : (wholeSystem cfg).step u (pid, b) = some (t, held pend pid ++ os))
    (hp : p.InWork cfg [] copy) : Answers cfg pid os pend u p copy t := by
  refine ⟨[(pid, b)], withdraw pend pid, Follows.commits rfl hlegit hs, ?_,
    fun q hq => held_withdraw_of_ne hq⟩
  rwa [held_withdraw]

/-- A process without a row. -/
theorem answers_of_acted (hmine : p.InWork cfg (held pend pid) copy)
    (hproc : p.isEmpty = true) (hacted : Acted cfg t p t' p' os) :
    Answers cfg pid os pend t p' copy t' := by
  have hheld : held pend pid = [] := by
    by_contra hne
    rcases hmine.outputs hne with ⟨task, c, rest, rfl⟩
    cases hproc
  cases hacted with
  | quiet hempty => exact answers_quiet hheld (inWork_of_isEmpty hempty)
  | @invalidated request valid callback hchecks hcallback =>
      refine answers_commit (b := .move (.supersede callback)) (Legit.supersede callback) ?_
        ⟨rfl, hchecks, hcallback⟩
      simp [wholeSystem, Move.run, hheld]
  | notStored => cases hproc
  | stored => cases hproc
  | read task rest hread =>
      exact answers_quiet hheld (inWork_resume fun r hr => (hread r hr).2)
  | deleted ids =>
      refine answers_commit (b := .deleteBatch ids) trivial ?_ rfl
      simp [wholeSystem, hheld]
  | raised => cases hproc
  | worked => cases hproc
  | saved => cases hproc

variable {free : Nat → Bool}

/-- The uploads and the insert of a submit. -/
theorem answers_of_submitting {request : HttpRequest} {valid : ValidRequest} {callback : PyStr}
    (hmine : (Proc.submitting request valid callback).InWork cfg (held pend pid) copy)
    (hact : (Proc.submitting request valid callback).act cfg free t a = some (t', p', os)) :
    Answers cfg pid os pend t p' copy t' := by
  rcases hmine with ⟨hheld, hchecks, hcallback⟩
  cases a with
  | store storage env =>
      cases hact
      rcases storeSubmission_cases cfg storage env request valid callback 0 t with
        ⟨htable, hout⟩ | ⟨urlsJson, keysJson, hurls, hid, htable, hout⟩
      · rw [htable, hout]
        exact answers_quiet hheld rfl
      · rw [htable, hout]
        refine answers_commit (b := .move (.insert request valid callback urlsJson keysJson env.now))
          (Legit.insert urlsJson keysJson env.now hchecks hcallback hurls hid) ?_ rfl
        simp [wholeSystem, Move.run, hheld]
  | _ => cases hact

/-- The work on a row: with an exception it is over, and without one the save is to come. -/
theorem answers_of_working {task : Task} {rest : Rest}
    (hmine : (Proc.working task s rest).InWork cfg (held pend pid) copy)
    (hcurrent : (Proc.working task s rest).Current x.state.table (x.copy pid))
    (hok : upToDate cfg x (pid, a) = true) (hproc : x.state.proc pid = .working task s rest)
    (hact : (Proc.working task s rest).act cfg free x.state.table a = some (t', p', os)) :
    Answers cfg pid os pend x.state.table p' (some s) t' := by
  rcases hmine with ⟨hheld, hread⟩
  have hs : task.MayRead cfg s := hread s (by simp)
  cases a with
  | work env =>
      rcases hwork : task.work cfg env s with ⟨outputs, e | c⟩
      · simp only [Proc.act, hwork, Option.some.injEq, Prod.mk.injEq] at hact
        rcases hact with ⟨rfl, rfl, rfl⟩
        have hstored : s ∈ x.state.table := by
          cases task with
          | put request graderReply => exact hcurrent
          | _ =>
              simp only [upToDate, hproc, hwork] at hok
              exact KeyedTable.mem_of_get? (by simpa using hok)
        -- neither the answer to the fetch nor the clock plays a part
        refine answers_commit (b := .move (.work task env s .timeout env.now))
          (Legit.work .timeout env.now hstored hs) ?_ rfl
        simp [wholeSystem, Move.run, hwork, hheld]
      · simp only [Proc.act, hwork, Option.some.injEq, Prod.mk.injEq] at hact
        rcases hact with ⟨rfl, rfl, rfl⟩
        refine ⟨[], defer pend pid outputs, Follows.defers, ?_, fun q hq => held_defer_of_ne hq⟩
        rw [held_defer, hheld, List.nil_append]
        exact ⟨⟨env, s, rfl, hs, hwork⟩, fun r hr => hread r (by simp [hr])⟩
  | _ => cases hact

/-- The save of a row that is stored as it was read. -/
theorem answers_of_saving {task : Task} {rest : Rest}
    (hmine : (Proc.saving task c rest).InWork cfg (held pend pid) (x.copy pid))
    (hcurrent : (Proc.saving task c rest).Current x.state.table (x.copy pid))
    (hok : upToDate cfg x (pid, a) = true) (hproc : x.state.proc pid = .saving task c rest)
    (hact : (Proc.saving task c rest).act cfg free x.state.table a = some (t', p', os)) :
    Answers cfg pid os pend x.state.table p' copy t' := by
  rcases hmine with ⟨⟨env, s, hcopy, hs, hwork⟩, hrest⟩
  have hget : x.state.table.get? c.id = some s := by
    cases task with
    | put request graderReply =>
        rcases hcurrent with ⟨r, hr, hid, hr'⟩
        rw [hcopy, Option.some.injEq] at hr'
        subst hr'
        exact KeyedTable.get?_eq_some_iff.2 ⟨hr, hid⟩
    | _ =>
        simp only [upToDate, hproc, hcopy] at hok
        simpa using hok
  cases a with
  | save fetch now =>
      simp only [Proc.act] at hact
      split at hact
      · simp only [Option.some.injEq, Prod.mk.injEq] at hact
        rcases hact with ⟨rfl, rfl, rfl⟩
        refine answers_commit (b := .move (.work task env s fetch now))
          (Legit.work fetch now (KeyedTable.mem_of_get? hget) hs) ?_ (inWork_resume hrest)
        simp [wholeSystem, Move.run, hwork]
      · cases hact
  | _ => cases hact

theorem Serializes.step {u : Table} (h : Serializes cfg x pend u)
    (hok : upToDate cfg x (pid, a) = true) (hstep : (trackedSystem cfg).step x (pid, a) = some (x', os)) :
    ∃ bs pend' u', Follows (wholeSystem cfg) (LegitWhole cfg) Prod.fst pid os pend u bs pend' u' ∧
      Serializes cfg x' pend' u' := by
  simp only [trackedSystem] at hstep
  split at hstep
  · cases hstep
  · rename_i st outputs hnext
    rcases act_of_step hnext with ⟨t, p, hact, rfl⟩
    cases hstep
    have hcurrent := h.current_step hact
    have hmine := h.inWork pid
    have hrow := h.current pid
    have hanswers : Answers cfg pid os pend u p ((x.state.proc pid).workedOn (x.copy pid)) t := by
      rw [h.table]
      cases hproc : x.state.proc pid with
      | submitting request valid callback =>
          rw [hproc] at hmine hact
          exact answers_of_submitting hmine hact
      | working task s rest =>
          rw [hproc] at hmine hact hrow
          exact answers_of_working hmine hrow hok hproc hact
      | saving task c rest =>
          rw [hproc] at hmine hact hrow
          exact answers_of_saving hmine hrow hok hproc hact
      | _ =>
          rw [hproc] at hmine hact
          exact answers_of_acted hmine rfl (acted_of_act hact)
    rcases hanswers with ⟨bs, pend', hfollows, hp, hother⟩
    exact ⟨bs, pend', t, hfollows, h.next hnext hact hcurrent hp hother⟩

/-- An interleaving in which every process without a lock finds its row at the end as it has read it
comes to the table and the outputs of a run of whole steps, each at one of the steps of its process;
what is missing has been sent by processes that have not saved yet. -/
theorem serializable_of_upToDate {as : List (Nat × Act)}
    (h : Run (trackedSystem cfg) (fun x a => upToDate cfg x a = true) ⟨State.start t, fun _ => none⟩
      as os x) :
    ∃ blocks ps, ∃ pend : List (Nat × Output), List.Forall₂ (Matches Prod.fst Prod.fst) as blocks ∧
      Run (wholeSystem cfg) (LegitWhole cfg) t blocks.flatten ps x.state.table ∧
      os.Perm (ps ++ pend.map Prod.snd) ∧
      ∀ pid o, (pid, o) ∈ pend → ∃ task c rest, x.state.proc pid = .saving task c rest := by
  have hstart : Serializes cfg ⟨State.start t, fun _ => none⟩ [] t := serializes_start
  rcases h.deferred (wholeSystem cfg) (LegitWhole cfg) Prod.fst Prod.fst (R := Serializes cfg) hstart
    (fun hR hok hs => hR.step hok hs) with ⟨blocks, ps, pend, u, hmatch, hrun, hR, hperm⟩
  rw [hR.table] at hrun
  refine ⟨blocks, ps, pend, hmatch, hrun, hperm, ?_⟩
  intro pid o hmem
  exact (hR.inWork pid).outputs (List.ne_nil_of_mem (mem_held.2 hmem))

/-- A pull, and a submit for another problem before the pull is saved. -/
def pullBesideSubmit : List (Nat × Act) :=
  let env : WorkEnv := ⟨clockAt 2, clockAt 2, .timeout, fun _ => .timeout⟩
  [(1, .getSubmission (pullRequest (py "test-pull")) .insertion (clockAt 1)),
    (2, .submit (jobFor (py "/lms/2/problem"))), (1, .work env),
    (2, .store pathStorage ⟨clockAt 2, clockAt 2, true⟩), (1, .save (.response 200 []) (clockAt 2))]

theorem pullBesideSubmit_runs : ((trackedSystem devSettings).execWhile (upToDate devSettings)
    ⟨State.start pendingTable, fun _ => none⟩ pullBesideSubmit).isSome := by
  decide +kernel

theorem serializable_of_upToDate_pull :
    let next := ((trackedSystem devSettings).execWhile (upToDate devSettings)
      ⟨State.start pendingTable, fun _ => none⟩ pullBesideSubmit).get pullBesideSubmit_runs
    (∃ bs ps, ∃ pend : List (Nat × Output), Run (wholeSystem devSettings) (LegitWhole devSettings)
      pendingTable bs ps next.1.state.table ∧ next.2.Perm (ps ++ pend.map Prod.snd)) ∧
      next.1.state.table.rows.length = 2 := by
  rcases serializable_of_upToDate (run_get_while pullBesideSubmit_runs) with
    ⟨blocks, ps, pend, -, hrun, hperm, -⟩
  exact ⟨⟨blocks.flatten, ps, pend, hrun, hperm⟩, by decide +kernel⟩

end Xqueue
