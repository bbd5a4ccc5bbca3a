import Mathlib.Algebra.Order.BigOperators.Group.Finset
import Mathlib.Data.Prod.Lex
import Xqueue.Library.Liveness
import Xqueue.Isolation

/-!
# Quiescence — every operation comes to its end

The retiring commands make a query after another and save row by row, `delete_old_submissions`
deletes until a query finds nothing, and a write waits for the locks of its rows.  Whatever the
outside answers, and however the processes are scheduled:

* `Advances`, `advances_of_act` : what a step brings an operation nearer to its end;
* `State.rank` : how far all operations in flight are from their ends;
* `exists_step_of_lock` : the owner of a lock is never held up, so that there is no deadlock;
* `quiescence` : without new operations the system comes to rest, with every process idle and
  every lock released;
* `operation_ends` : in an infinite run as well, a process that goes on comes to the end of its
  operation, unless it deletes old rows.
-/

namespace Xqueue

open Library
open Library.System

variable {cfg : Config} {free : Nat → Bool} {t t' : Table} {p p' : Proc} {a : Act}
  {os : List Output} {s c : Submission} {st st' : State} {pid n : Nat}

/-! ## One step of an operation -/

/-- The queries that a command has still to make. -/
def Proc.scopesLeft : Proc → Nat
  | .working _ _ rest => rest.scopes.length
  | .saving _ _ rest => rest.scopes.length
  | .querying _ scopes => scopes.length
  | _ => 0

/-- The steps up to its next query. -/
def Proc.stepsLeft : Proc → Nat
  | .submitting _ _ _ => 1
  | .working _ _ rest => 2 * rest.rows.length + 2
  | .saving _ _ rest => 2 * rest.rows.length + 1
  | _ => 0

/-- The steps of `delete_old_submissions` up to its next deletion of a stored row. -/
def Proc.roundsLeft (t : Table) : Proc → Nat
  | .deleting _ _ => 2
  | .removing _ _ ids => if t.rows.any (fun r => r.id ∈ ids) then 1 else 4
  | .pausing _ _ => 3
  | _ => 0

/-- The process is inside `delete_old_submissions`. -/
def Proc.isDeleting : Proc → Bool
  | .deleting _ _ => true
  | .removing _ _ _ => true
  | .pausing _ _ => true
  | _ => false

theorem scopesLeft_resume {task : Task} {rest : Rest} :
    (task.resume rest).scopesLeft ≤ rest.scopes.length := by
  rcases rest with ⟨_ | ⟨s, rows⟩, scopes⟩
  · cases task <;> cases scopes <;> simp [Task.resume, Proc.scopesLeft]
  · exact Nat.le_refl _

theorem stepsLeft_resume {task : Task} {rest : Rest} :
    (task.resume rest).stepsLeft ≤ 2 * rest.rows.length := by
  rcases rest with ⟨_ | ⟨s, rows⟩, scopes⟩
  · cases task <;> cases scopes <;> exact Nat.le_refl 0
  · exact Nat.le_refl _

/-- What one step brings an operation nearer to its end, on the table before and after it. -/
inductive Advances (t t' : Table) (p p' : Proc) : Prop
  | queried : p'.scopesLeft < p.scopesLeft → Advances t t' p p'
  | worked : p'.scopesLeft ≤ p.scopesLeft → p'.stepsLeft < p.stepsLeft → Advances t t' p p'
  | deleted : p.isDeleting = true → p'.scopesLeft ≤ p.scopesLeft → p'.stepsLeft ≤ p.stepsLeft →
      t'.rows.length < t.rows.length → Advances t t' p p'
  | looked : p.isDeleting = true → p'.scopesLeft ≤ p.scopesLeft → p'.stepsLeft ≤ p.stepsLeft →
      t' = t → p'.roundsLeft t < p.roundsLeft t → Advances t t' p p'

/-- The rows that a query of the deletion has found are stored. -/
theorem any_batchIds {plan : QueryPlan} {date : DateTime} {chunkSize : Nat} {ids : List Nat}
    (h : batchIds plan date chunkSize t = ids) (hne : ids ≠ []) :
    t.rows.any (fun r => r.id ∈ ids) = true := by
  rcases List.exists_mem_of_ne_nil ids hne with ⟨id, hid⟩
  rw [← h, batchIds, List.mem_map] at hid
  rcases hid with ⟨r, hr, rfl⟩
  have hmem : r ∈ t := (mem_order_filter.1 (List.mem_of_mem_take hr)).1
  refine List.any_eq_true.2 ⟨r, KeyedTable.mem_rows.1 hmem, ?_⟩
  rw [← h, batchIds]
  exact decide_eq_true (List.mem_map_of_mem hr)

/-- A deletion removes a row, or all its rows have gone before. -/
theorem advances_deleteBatch {date : DateTime} {options : DeleteOptions} {ids : List Nat} :
    Advances t (deleteBatch ids t) (.removing date options ids) (.pausing date options) := by
  by_cases hany : t.rows.any (fun r => r.id ∈ ids) = true
  · refine Advances.deleted rfl (Nat.le_refl _) (Nat.le_refl _) ?_
    rcases List.any_eq_true.1 hany with ⟨r, hr, hin⟩
    exact List.length_filter_lt_length_iff_exists.2 ⟨r, hr, by simpa using hin⟩
  · have hnone : ∀ r ∈ t, decide (r.id ∈ ids) = false := by
      intro r hr
      by_contra hin
      exact hany (List.any_eq_true.2 ⟨r, KeyedTable.mem_rows.1 hr, by simpa using hin⟩)
    refine Advances.looked rfl (Nat.le_refl _) (Nat.le_refl _) ?_ ?_
    · exact KeyedTable.deleteWhere_of_forall_not hnone
    · simp [Proc.roundsLeft, hany]

theorem advances_of_act (h : p.act cfg free t a = some (t', p', os)) (hp : p ≠ .idle) :
    Advances t t' p p' := by
  unfold Proc.act at h
  split at h
  · exact absurd rfl hp
  · -- store
    cases h
    exact Advances.worked (Nat.le_refl _) Nat.zero_lt_one
  · exact absurd rfl hp
  · exact absurd rfl hp
  · exact absurd rfl hp
  · exact absurd rfl hp
  · -- the query of a pass
    cases h
    exact Advances.queried (Nat.lt_succ_of_le scopesLeft_resume)
  · exact absurd rfl hp
  · exact absurd rfl hp
  · -- the query of a batch
    split at h
    · cases h
      exact Advances.looked rfl (Nat.le_refl _) (Nat.le_refl _) rfl Nat.zero_lt_two
    · rename_i hids
      cases h
      refine Advances.looked rfl (Nat.le_refl _) (Nat.le_refl _) rfl ?_
      simp only [Proc.roundsLeft, any_batchIds rfl hids]
      exact Nat.one_lt_two
  · -- the deletion of a batch
    split at h
    · cases h
      exact advances_deleteBatch
    · cases h
  · -- the query before it sleeps
    split at h
    · cases h
      exact Advances.looked rfl (Nat.le_refl _) (Nat.le_refl _) rfl (Nat.succ_pos 2)
    · cases h
      exact Advances.looked rfl (Nat.le_refl _) (Nat.le_refl _) rfl (Nat.lt_succ_self 2)
  · -- work
    split at h
    · cases h
      exact Advances.worked (Nat.zero_le _) (Nat.succ_pos _)
    · cases h
      exact Advances.worked (Nat.le_refl _) (Nat.lt_succ_self _)
  · -- save
    split at h
    · cases h
      exact Advances.worked scopesLeft_resume (Nat.lt_succ_of_le stepsLeft_resume)
    · cases h
  · cases h

/-! ## All operations in flight -/

section Sums

variable {f : Proc → Nat} {g : Nat → Proc}

theorem sum_update_le (h : f p ≤ f (g pid)) :
    ∑ q ∈ Finset.range n, f (Function.update g pid p q) ≤ ∑ q ∈ Finset.range n, f (g q) := by
  refine Finset.sum_le_sum fun q _ => ?_
  by_cases hq : q = pid
  · subst hq
    simpa using h
  · rw [Function.update_of_ne hq]

theorem sum_update_lt (hpid : pid < n) (h : f p < f (g pid)) :
    ∑ q ∈ Finset.range n, f (Function.update g pid p q) < ∑ q ∈ Finset.range n, f (g q) := by
  refine Finset.sum_lt_sum (fun q _ => ?_) ⟨pid, Finset.mem_range.2 hpid, by simpa using h⟩
  by_cases hq : q = pid
  · subst hq
    simpa using h.le
  · rw [Function.update_of_ne hq]

end Sums

/-- The queries to come, the steps up to them, the rows that deletions may still find, and their
steps; the processes from `n` on are idle. -/
def State.rank (n : Nat) (st : State) : ℕ ×ₗ ℕ ×ₗ ℕ ×ₗ ℕ :=
  toLex (∑ pid ∈ Finset.range n, (st.proc pid).scopesLeft,
    toLex (∑ pid ∈ Finset.range n, (st.proc pid).stepsLeft,
      toLex (st.table.rows.length,
        ∑ pid ∈ Finset.range n, (st.proc pid).roundsLeft st.table)))

theorem rank_lt (hpid : pid < n) (h : Advances st.table t (st.proc pid) p) {lock : Nat → Option Nat} :
    State.rank n ⟨t, lock, Function.update st.proc pid p⟩ < State.rank n st := by
  cases h with
  | queried hscopes => exact Prod.Lex.toLex_lt_toLex.2 (Or.inl (sum_update_lt hpid hscopes))
  | worked hscopes hsteps =>
      refine Prod.Lex.toLex_lt_toLex'.2 ⟨sum_update_le hscopes, fun _ => ?_⟩
      exact Prod.Lex.toLex_lt_toLex.2 (Or.inl (sum_update_lt hpid hsteps))
  | deleted _ hscopes hsteps hrows =>
      refine Prod.Lex.toLex_lt_toLex'.2 ⟨sum_update_le hscopes, fun _ => ?_⟩
      refine Prod.Lex.toLex_lt_toLex'.2 ⟨sum_update_le hsteps, fun _ => ?_⟩
      exact Prod.Lex.toLex_lt_toLex.2 (Or.inl hrows)
  | looked _ hscopes hsteps htable hrounds =>
      -- the table is as it was, and so is what the others have to do on it
      subst htable
      refine Prod.Lex.toLex_lt_toLex'.2 ⟨sum_update_le hscopes, fun _ => ?_⟩
      refine Prod.Lex.toLex_lt_toLex'.2 ⟨sum_update_le hsteps, fun _ => ?_⟩
      exact Prod.Lex.toLex_lt_toLex.2
        (Or.inr ⟨rfl, @sum_update_lt _ _ _ (Proc.roundsLeft st.table) _ hpid hrounds⟩)

/-- A command makes a query only if it has a scope for it. -/
def Proc.HasScope : Proc → Prop
  | .querying _ scopes => scopes ≠ []
  | _ => True

theorem hasScope_resume {task : Task} {rest : Rest} : (task.resume rest).HasScope := by
  rcases rest with ⟨_ | ⟨s, rows⟩, scopes⟩
  · cases task <;> cases scopes <;> simp [Task.resume, Proc.HasScope]
  · trivial

theorem scopesOf_ne_nil {queueNames : List PyStr} : scopesOf queueNames ≠ [] := by
  cases queueNames <;> simp [scopesOf]

theorem hasScope_of_act (h : p.act cfg free t a = some (t', p', os)) : p'.HasScope := by
  unfold Proc.act at h
  split at h
  · split at h
    · cases h
      trivial
    · split at h
      · cases h
        trivial
      · split at h <;> cases h
        trivial
  · cases h
    trivial
  · split at h
    · cases h
      trivial
    · split at h <;> (cases h; trivial)
  · split at h
    · cases h
      trivial
    · split at h <;> cases h
      trivial
  · split at h <;> (cases h; trivial)
  · -- retire_failed_submissions
    cases h
    exact scopesOf_ne_nil
  · cases h
    exact hasScope_resume
  · split at h
    · cases h
      trivial
    · cases h
      exact hasScope_resume
  · split at h <;> (cases h; trivial)
  · split at h <;> (cases h; trivial)
  · split at h <;> cases h
    trivial
  · split at h <;> (cases h; trivial)
  · split at h <;> (cases h; trivial)
  · split at h
    · cases h
      exact hasScope_resume
    · cases h
  · cases h

/-- Operations are in flight in the first `n` processes only. -/
structure InFlight (n : Nat) (st : State) : Prop where
  locks : Locks st
  idle : ∀ pid, n ≤ pid → st.proc pid = .idle
  scopes : ∀ pid, (st.proc pid).HasScope

theorem inFlight_start : InFlight 0 (State.start t) where
  locks := locks_start
  idle := fun _ _ => rfl
  scopes := fun _ => trivial

theorem InFlight.mono {m : Nat} (h : InFlight n st) (hle : n ≤ m) : InFlight m st :=
  ⟨h.locks, fun pid hpid => h.idle pid (hle.trans hpid), h.scopes⟩

theorem InFlight.step (h : InFlight n st) (hpid : pid < n)
    (hstep : st.step cfg (pid, a) = some (st', os)) : InFlight n st' := by
  rcases act_of_step hstep with ⟨t, p, hact, rfl⟩
  refine ⟨h.locks.step hstep, fun q hq => ?_, fun q => ?_⟩
  · have hne : q ≠ pid := (hpid.trans_le hq).ne'
    simpa [Function.update_of_ne hne] using h.idle q hq
  · by_cases hq : q = pid
    · subst hq
      simpa using hasScope_of_act hact
    · simpa [Function.update_of_ne hq] using h.scopes q

theorem inFlight_of_run {ok : State → Nat × Act → Prop} {as : List (Nat × Act)}
    (h : Run (interleavedSystem cfg) ok (State.start t) as os st) : ∃ n, InFlight n st := by
  refine h.invariant (I := fun _ st => ∃ n, InFlight n st) ⟨0, inFlight_start⟩ ?_
  rintro _ st ⟨pid, a⟩ st' o ⟨n, hn⟩ _ hstep
  have hle : InFlight (max n (pid + 1)) st := hn.mono (Nat.le_max_left n (pid + 1))
  exact ⟨_, hle.step (Nat.lt_of_succ_le (Nat.le_max_right n (pid + 1))) hstep⟩

/-! ## No deadlock -/

/-- The process can take a step, for some answer of the outside. -/
def State.Enabled (cfg : Config) (st : State) (pid : Nat) : Prop :=
  ∃ a next, st.step cfg (pid, a) = some next

theorem enabled_of_act {r : Table × Proc × List Output}
    (h : (st.proc pid).act cfg (st.free pid) st.table a = some r) : st.Enabled cfg pid := by
  rcases r with ⟨t, p, os⟩
  refine ⟨a, (⟨t, st.relock pid p, Function.update st.proc pid p⟩, os), ?_⟩
  simp [State.step, h]

/-- The work on a row takes place for every answer of the outside. -/
theorem enabled_of_working {task : Task} {rest : Rest} (h : st.proc pid = .working task s rest) :
    st.Enabled cfg pid := by
  have env : WorkEnv := ⟨clockAt 0, clockAt 0, .timeout, fun _ => .timeout⟩
  rcases hwork : task.work cfg env s with ⟨os, e | c⟩
  · exact enabled_of_act (a := .work env) (r := (st.table, .idle, os)) (by simp [h, Proc.act, hwork])
  · exact enabled_of_act (a := .work env) (r := (st.table, .saving task c rest, os))
      (by simp [h, Proc.act, hwork])

theorem enabled_of_saving {task : Task} {rest : Rest} (h : st.proc pid = .saving task c rest)
    (hfree : st.free pid c.id = true) : st.Enabled cfg pid := by
  refine enabled_of_act (a := .save .timeout (clockAt 0)) (r := ((task.finish cfg .timeout (clockAt 0) c
    st.table).1, task.resume rest, (task.finish cfg .timeout (clockAt 0) c st.table).2)) ?_
  simp [h, Proc.act, hfree]

/-- The owner of a lock does not wait for any. -/
theorem exists_step_of_lock (h : Locks st) {id : Nat} (hlock : st.lock id = some pid) :
    st.Enabled cfg pid := by
  have hlocked := (h.locked pid id).2 hlock
  rcases put_of_locked hlocked with ⟨request, graderReply, c, rest, rfl, hproc | hproc⟩
  · exact enabled_of_working hproc
  · exact enabled_of_saving hproc (h.free_of_locked hlocked)

/-- A row that is not free has an owner that can go on. -/
theorem enabled_of_not_free (h : Locks st) {id : Nat} (hfree : st.free pid id ≠ true) :
    ∃ q, q ≠ pid ∧ st.lock id = some q ∧ st.Enabled cfg q := by
  rcases hlock : st.lock id with _ | q
  · simp [State.free, hlock] at hfree
  · have hne : q ≠ pid := by simpa [State.free, hlock] using hfree
    exact ⟨q, hne, rfl, exists_step_of_lock h hlock⟩

/-- An operation can go on, or it waits for a lock whose owner can. -/
theorem enabled_or_waits (h : Locks st) (hscope : (st.proc pid).HasScope)
    (hp : st.proc pid ≠ .idle) :
    st.Enabled cfg pid ∨ ∃ q id, q ≠ pid ∧ st.lock id = some q ∧ st.Enabled cfg q := by
  cases hproc : st.proc pid with
  | idle => exact absurd hproc hp
  | submitting request valid callback =>
      -- the second step of a submit waits for nobody, whatever the storage answers
      exact Or.inl (enabled_of_act (a := .store pathStorage ⟨clockAt 0, clockAt 0, true⟩)
        (by rw [hproc]; rfl))
  | working task s rest => exact Or.inl (enabled_of_working hproc)
  | saving task c rest =>
      -- a save waits for the lock of its row
      by_cases hfree : st.free pid c.id = true
      · exact Or.inl (enabled_of_saving hproc hfree)
      · rcases enabled_of_not_free h hfree with ⟨q, hq⟩
        exact Or.inr ⟨q, c.id, hq⟩
  | querying force scopes =>
      rw [hproc] at hscope
      cases scopes with
      | nil => exact absurd rfl hscope
      | cons scope scopes =>
          exact Or.inl (enabled_of_act (a := .query .insertion) (by rw [hproc]; rfl))
  | deleting date options =>
      rcases hids : batchIds .insertion date options.chunkSize.toNat st.table with _ | ⟨id, ids⟩
      · exact Or.inl (enabled_of_act (a := .query .insertion) (r := (st.table, .idle, []))
          (by simp [hproc, Proc.act, hids]))
      · exact Or.inl (enabled_of_act (a := .query .insertion)
          (r := (st.table, .removing date options (id :: ids), [])) (by simp [hproc, Proc.act, hids]))
  | removing date options ids =>
      by_cases hfree : ids.all (st.free pid) = true
      · exact Or.inl (enabled_of_act (a := .delete)
          (r := (deleteBatch ids st.table, .pausing date options, []))
          (by rw [hproc]; simp only [Proc.act, hfree, if_true]))
      · simp only [List.all_eq_true, not_forall] at hfree
        rcases hfree with ⟨id, -, hnot⟩
        rcases enabled_of_not_free h hnot with ⟨q, hq⟩
        exact Or.inr ⟨q, id, hq⟩
  | pausing date options =>
      rcases hsleep : (if st.table.rows.any (isOld date) then timeSleep options.sleepBetween else .ok ())
        with e | _
      · exact Or.inl (enabled_of_act (a := .query .insertion) (r := (st.table, .idle, []))
          (by simp only [hproc, Proc.act, hsleep]))
      · exact Or.inl (enabled_of_act (a := .query .insertion)
          (r := (st.table, .deleting date options, []))
          (by simp only [hproc, Proc.act, hsleep]))

/-! ## Rest -/

/-- The step belongs to an operation that has begun. -/
def Continues (st : State) (a : Nat × Act) : Prop :=
  st.proc a.1 ≠ .idle

/-- No operation is in flight, and no row is locked. -/
structure AtRest (st : State) : Prop where
  idle : ∀ pid, st.proc pid = .idle
  unlocked : ∀ id, st.lock id = none

/-- An idle process holds no lock. -/
theorem atRest_of_idle (h : Locks st) (hidle : ∀ pid, st.proc pid = .idle) : AtRest st := by
  refine ⟨hidle, fun id => ?_⟩
  rcases hlock : st.lock id with _ | q
  · rfl
  · have hlocked := (h.locked q id).2 hlock
    rw [hidle q] at hlocked
    cases hlocked

theorem AtRest.eq_start (h : AtRest st) : st = State.start st.table := by
  rcases st with ⟨t, lock, proc⟩
  have hlock : lock = fun _ => none := funext h.unlocked
  have hproc : proc = fun _ => .idle := funext h.idle
  rw [State.start, hlock, hproc]

theorem stuck_iff_atRest (h : InFlight n st) :
    Stuck (interleavedSystem cfg) Continues st ↔ AtRest st := by
  constructor
  · intro hstuck
    have hnone : ∀ q, st.proc q ≠ .idle → ¬ st.Enabled cfg q := by
      rintro q hq ⟨a, next, hs⟩
      have := hstuck (q, a) hq
      simp [interleavedSystem, hs] at this
    have hidle : ∀ pid, st.proc pid = .idle := by
      intro pid
      by_contra hp
      rcases enabled_or_waits h.locks (h.scopes pid) hp with henabled | ⟨q, id, -, hlock, henabled⟩
      · exact hnone pid hp henabled
      · -- the owner of a lock is not idle
        refine hnone q (fun heq => ?_) henabled
        have hlocked := (h.locks.locked q id).2 hlock
        rw [heq] at hlocked
        cases hlocked
    exact atRest_of_idle h.locks hidle
  · intro hrest a hcontinues
    exact absurd (hrest.idle a.1) hcontinues

theorem halts_of_inFlight (h : InFlight n st) : Halts (interleavedSystem cfg) Continues st := by
  refine halts_of_rank (State.rank n) (I := InFlight n) ?_ h
  rintro st ⟨pid, a⟩ st' o hI hcontinues hstep
  have hpid : pid < n := by
    by_contra hle
    exact hcontinues (hI.idle pid (Nat.le_of_not_lt hle))
  refine ⟨hI.step hpid hstep, ?_⟩
  rcases act_of_step hstep with ⟨t, p, hact, rfl⟩
  exact rank_lt hpid (advances_of_act hact hcontinues)

/-- In every state that any interleaving reaches, and for all answers of the outside: the operations
that are in flight take finitely many more steps, however these are ordered, and as long as they
have not all ended, with every lock released, one of them can take a step. -/
theorem quiescence {ok : State → Nat × Act → Prop} {as : List (Nat × Act)}
    (h : Run (interleavedSystem cfg) ok (State.start t) as os st) :
    (¬ ∃ f : ℕ → State, f 0 = st ∧ ∀ n, ∃ a o, Continues (f n) a ∧
      (interleavedSystem cfg).step (f n) a = some (f (n + 1), o)) ∧
    ∀ bs ps u, Run (interleavedSystem cfg) Continues st bs ps u →
      (Stuck (interleavedSystem cfg) Continues u ↔ AtRest u) := by
  rcases inFlight_of_run h with ⟨n, hn⟩
  refine ⟨(halts_of_inFlight hn).not_infinite, ?_⟩
  intro bs ps u hrun
  rcases inFlight_of_run (h.free.append hrun.free) with ⟨m, hm⟩
  exact stuck_iff_atRest hm

/-- From the two results and the pull, which is still to be saved. -/
theorem quiescence_twoResults :
    ∃ bs ps u, Run (interleavedSystem devSettings) Continues
      (((interleavedSystem devSettings).exec (State.start pulledTable) twoResults).get
        twoResults_steps).1 bs ps u ∧ AtRest u := by
  have hrun := run_get twoResults_steps
  rcases inFlight_of_run hrun with ⟨n, hn⟩
  rcases (@halts_of_inFlight devSettings _ _ hn).exists_stuck with ⟨bs, ps, u, hcontinued, hstuck⟩
  exact ⟨bs, ps, u, hcontinued, ((quiescence hrun).2 bs ps u hcontinued).1 hstuck⟩

/-! ## Infinite runs -/

/-- In every infinite run, in which new operations begin all the time, each process that takes steps
again and again is again and again at the end of an operation, or it deletes old rows. -/
theorem operation_ends {f : ℕ → State} {act : ℕ → Nat × Act}
    (h : InfiniteRun (interleavedSystem cfg) f act) (hpid : ∀ m, ∃ k, m ≤ k ∧ (act k).1 = pid) (m : ℕ) :
    ∃ k, m ≤ k ∧ ((f k).proc pid = .idle ∨ ((f k).proc pid).isDeleting = true) := by
  let rank : State → ℕ ×ₗ ℕ := fun st => toLex ((st.proc pid).scopesLeft, (st.proc pid).stepsLeft)
  have hends := eventually_of_rank (f := f) (fun k => (act k).1 = pid)
    (fun st => st.proc pid = .idle ∨ (st.proc pid).isDeleting = true) rank ?_ ?_ m
  · rcases hends with hgoal | ⟨k, -, hstop⟩
    · exact hgoal
    · rcases hpid k with ⟨l, hl, hmine⟩
      exact absurd hmine (hstop l hl)
  · intro k hgoal hmine
    rcases h k with ⟨o, hstep⟩
    rw [not_or] at hgoal
    have hact : act k = (pid, (act k).2) := Prod.ext hmine rfl
    rw [hact] at hstep
    rcases act_of_step hstep with ⟨t, p, hp, hnext⟩
    right
    simp only [rank, hnext, Function.update_self]
    -- a query takes one of the scopes, and a step within a pass one of the steps that are left
    cases advances_of_act hp hgoal.1 with
    | queried hscopes => exact Prod.Lex.toLex_lt_toLex.2 (Or.inl hscopes)
    | worked hscopes hsteps => exact Prod.Lex.toLex_lt_toLex'.2 ⟨hscopes, fun _ => hsteps⟩
    | deleted hdeleting => exact absurd hdeleting hgoal.2
    | looked hdeleting => exact absurd hdeleting hgoal.2
  · intro k _ hother
    rcases h k with ⟨o, hstep⟩
    have hact : act k = ((act k).1, (act k).2) := rfl
    rw [hact] at hstep
    rcases act_of_step hstep with ⟨t, p, -, hnext⟩
    simp only [rank, hnext, Function.update_of_ne (Ne.symm hother), le_refl]

/-- All processes that have taken a step are below `n`, so they are idle if those below `n` are. -/
theorem atRest_of_run {n : Nat} {as : List (Nat × Act)}
    (h : Run (interleavedSystem cfg) Free (State.start t) as os st) (hlt : ∀ a ∈ as, a.1 < n)
    (hidle : ∀ pid < n, st.proc pid = .idle) : AtRest st := by
  have hflight : InFlight n st := by
    refine (h.of_forall_mem hlt).invariant (I := fun _ st => InFlight n st)
      (inFlight_start.mono (Nat.zero_le n)) ?_
    rintro _ st ⟨pid, a⟩ st' o hI hpid hstep
    exact hI.step hpid hstep
  refine atRest_of_idle hflight.locks fun pid => ?_
  by_cases hpid : pid < n
  · exact hidle pid hpid
  · exact hflight.idle pid (Nat.le_of_not_lt hpid)

/-- A grader holds its copy of the pulled row while another one returns a result for it, and its save
opens the row again. -/
def staleSaves : List (Nat × Act) :=
  [(2, .getSubmission (pullRequest (py "test-pull")) .insertion (clockAt 3)),
    (1, .putResult (resultWith (py "eaaa7868ba5da1c0b5be0b5b4fc824e9"))),
    (1, .work ⟨clockAt 2, clockAt 2, .timeout, fun _ => .response 200 []⟩),
    (1, .save .timeout (clockAt 2)),
    (2, .work (pullEnvAt 1)),
    (2, .save .timeout (clockAt 1))]

theorem staleSaves_steps :
    ((interleavedSystem devSettings).exec (State.start pulledTable) staleSaves).isSome := by
  decide +kernel

def Proc.isIdle : Proc → Bool
  | .idle => true
  | _ => false

theorem isIdle_iff {p : Proc} : p.isIdle = true ↔ p = .idle := by
  cases p <;> simp [Proc.isIdle]

/-- The row is again as the first pull has left it. -/
theorem run_staleSaves : ∃ os, Run (interleavedSystem devSettings) Free (State.start pulledTable)
    staleSaves os (State.start pulledTable) := by
  have hrun := run_get staleSaves_steps
  have hidle : ∀ pid < 3, (((interleavedSystem devSettings).exec (State.start pulledTable)
      staleSaves).get staleSaves_steps).1.proc pid = .idle := by
    intro pid hpid
    rw [← isIdle_iff]
    revert pid
    decide +kernel
  have hrest := atRest_of_run hrun (by decide +kernel) hidle
  have htable : (((interleavedSystem devSettings).exec (State.start pulledTable)
      staleSaves).get staleSaves_steps).1.table = pulledTable :=
    KeyedTable.ext_rows (by decide +kernel) (by decide +kernel)
  rw [hrest.eq_start, htable] at hrun
  exact ⟨_, hrun⟩

/-- The two graders go on like this for ever, and the second is idle again and again. -/
theorem operation_ends_staleSaves :
    ∃ f, InfiniteRun (interleavedSystem devSettings) f
        (fun n => staleSaves.get ⟨n % 6, Nat.mod_lt n (by decide)⟩) ∧
      f 0 = State.start pulledTable ∧
      ∃ k, 7 ≤ k ∧ ((f k).proc 2 = .idle ∨ ((f k).proc 2).isDeleting = true) := by
  rcases run_staleSaves with ⟨os, hrun⟩
  have hpos : 0 < staleSaves.length := by decide
  rcases infiniteRun_of_cycle hpos hrun with ⟨f, hstart, hinfinite⟩
  have hagain : ∀ m, ∃ k, m ≤ k ∧ (staleSaves.get ⟨k % 6, Nat.mod_lt k hpos⟩).1 = 2 := by
    intro m
    -- the first step of each round
    refine ⟨6 * m, Nat.le_mul_of_pos_left m (by decide), ?_⟩
    simp only [Nat.mul_mod_right]
    rfl
  exact ⟨f, hinfinite, hstart, operation_ends hinfinite hagain 7⟩

end Xqueue
