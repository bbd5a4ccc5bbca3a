import Xqueue.Library.Deferral
import Xqueue.ConcurrentResults

/-!
# Isolation — `put_result` as one step among all other operations

`put_result` holds the lock of its row from the query to the commit, and every other write waits
for the lock.  The plain reads of the other operations do not wait.

* `Locks` : who holds the lock of a row, in every state that is reached;
* `mem_of_act` : a step leaves the rows alone that other processes have locked;
* `resultStepSystem` : the same processes, with `put_result` as a single step that needs no lock;
* `Proc.Follows` : where a request in flight stands, and what it has sent to the LMS;
* `put_result_isolated` : every interleaving is one in which each `put_result` takes place at
  its save, with nothing in between.
-/

namespace Xqueue

open Library
open Library.System

variable {cfg : Config} {free : Nat → Bool} {t t' : Table} {p p' : Proc} {a : Act}
  {os : List Output} {s c : Submission} {st st' : State} {pid : Nat}

/-! ## Locks -/

theorem act_of_step (hstep : st.step cfg (pid, a) = some (st', os)) :
    ∃ t p, (st.proc pid).act cfg (st.free pid) st.table a = some (t, p, os) ∧
      st' = ⟨t, st.relock pid p, Function.update st.proc pid p⟩ := by
  simp only [State.step] at hstep
  split at hstep
  · cases hstep
  · rename_i t p outputs hact
    cases hstep
    exact ⟨t, p, hact, rfl⟩

/-- A process has locked its row exactly if the lock is registered for it. -/
structure Locks (st : State) : Prop where
  one : ∀ pid, (st.proc pid).PutsOne
  locked : ∀ pid id, (st.proc pid).locked = some id ↔ st.lock id = some pid

theorem locks_start : Locks (State.start t) where
  one := fun _ => trivial
  locked := by simp [State.start, Proc.locked]

/-- A process that holds the lock of a row is not held up by it. -/
theorem Locks.free_of_locked (h : Locks st) {id : Nat} (hlocked : (st.proc pid).locked = some id) :
    st.free pid id = true := by
  simp [State.free, (h.locked pid id).1 hlocked]

/-- The lock of a row holds up every other process. -/
theorem Locks.free_eq_false (h : Locks st) {q id : Nat} (hlocked : (st.proc q).locked = some id)
    (hne : q ≠ pid) : st.free pid id = false := by
  simp [State.free, (h.locked q id).1 hlocked, hne]

theorem Locks.step (h : Locks st) (hstep : st.step cfg (pid, a) = some (st', os)) : Locks st' := by
  rcases act_of_step hstep with ⟨t, p, hact, rfl⟩
  -- a lock is kept by its owner, or it was free
  have hown : ∀ id, p.locked = some id → ∀ q, st.lock id = some q → q = pid := by
    intro id hid q hq
    rcases put_of_act (h.one pid) hact with hkeeps | ⟨request, graderReply, s, rfl, -, -, hfree, -⟩
    · rw [(h.locked pid id).1 (hkeeps.locked id hid), Option.some.injEq] at hq
      exact hq.symm
    · cases hid
      simpa [State.free, hq] using hfree
  refine ⟨fun q => ?_, fun q id => ?_⟩
  · by_cases hq : q = pid
    · subst hq
      rcases put_of_act (h.one q) hact with hkeeps | ⟨request, graderReply, s, rfl, -⟩
      · simpa using hkeeps.one
      · simp [Proc.PutsOne]
    · simpa [Function.update_of_ne hq] using h.one q
  · by_cases hq : q = pid
    · subst hq
      by_cases hid : p.locked = some id
      · simp [State.relock, hid]
      · by_cases hlock : st.lock id = some q <;> simp [State.relock, hid, hlock]
    · simp only [Function.update_of_ne hq, h.locked q id, State.relock]
      by_cases hid : p.locked = some id
      · simp only [hid, if_true, Option.some.injEq]
        exact ⟨fun hlock => absurd (hown id hid q hlock) hq, fun heq => absurd heq.symm hq⟩
      · by_cases hlock : st.lock id = some pid
        · simp [hid, hlock, Ne.symm hq]
        · simp [hid, hlock]

/-- A step leaves the rows alone that other processes have locked. -/
theorem mem_of_act (h : p.act cfg free t a = some (t', p', os)) (hs : s ∈ t)
    (hfree : free s.id = false) : s ∈ t' := by
  unfold Proc.act at h
  split at h
  · -- submit
    split at h
    · cases h
      exact hs
    · split at h
      · cases h
        exact hs
      · rename_i callback _
        split at h
        · rename_i hwait
          cases h
          -- a prior submission would be free
          have hprior : isPrior callback s = false := by
            have := List.all_eq_true.1 hwait s (KeyedTable.mem_rows.1 hs)
            simpa [hfree] using this
          exact mem_invalidate.2 ⟨s, hs, by simp [hprior]⟩
        · cases h
  · -- store
    rename_i request valid callback storage env
    cases h
    rcases storeSubmission_cases cfg storage env request valid callback 0 t with
      ⟨htable, -⟩ | ⟨urlsJson, keysJson, -, -, htable, -⟩
    · rw [htable]
      exact hs
    · rw [htable]
      exact KeyedTable.mem_insert.2 (Or.inl hs)
  · -- get_submission
    split at h
    · cases h
      exact hs
    · split at h <;> (cases h; exact hs)
  · -- put_result
    split at h
    · cases h
      exact hs
    · split at h <;> cases h
      exact hs
  · -- the push worker
    split at h <;> (cases h; exact hs)
  · cases h
    exact hs
  · cases h
    exact hs
  · -- retire_old_submissions
    split at h <;> (cases h; exact hs)
  · -- delete_old_submissions
    split at h <;> (cases h; exact hs)
  · split at h <;> (cases h; exact hs)
  · -- the deletion of a batch
    rename_i date options ids
    split at h
    · rename_i hwait
      cases h
      have hnotin : s.id ∉ ids := by
        intro hmem
        rw [List.all_eq_true.1 hwait s.id hmem] at hfree
        cases hfree
      exact mem_deleteBatch.2 ⟨hs, hnotin⟩
    · cases h
  · -- the query before it sleeps
    split at h <;> (cases h; exact hs)
  · -- work
    split at h <;> (cases h; exact hs)
  · -- save
    rename_i task c rest fetch now
    split at h
    · rename_i hwait
      cases h
      have hne : s.id ≠ c.id := by
        intro heq
        rw [heq, hwait] at hfree
        cases hfree
      rcases finish_cases cfg task fetch now c t with ⟨-, heq⟩ | heq
      · rwa [heq]
      · rw [heq]
        exact mem_save.2 (Or.inr ⟨hs, hne⟩)
    · cases h
  · cases h

/-- A step that no lock holds up is the same step without locks. -/
theorem act_of_free (h : p.act cfg free t a = some (t', p', os)) :
    p.act cfg (fun _ => true) t a = some (t', p', os) := by
  unfold Proc.act at h ⊢
  split at h
  · -- the UPDATE of a submit
    split at h
    · rename_i hchecks
      simpa only [hchecks] using h
    · rename_i hchecks
      split at h
      · rename_i hcallback
        simpa only [hchecks, hcallback] using h
      · rename_i hcallback
        split at h
        · simpa [hchecks, hcallback] using h
        · cases h
  · exact h
  · exact h
  · -- the lock of a `put_result`
    split at h
    · rename_i hchecks
      simpa only [hchecks] using h
    · rename_i hchecks
      split at h
      · simpa [hchecks] using h
      · cases h
  · exact h
  · exact h
  · exact h
  · exact h
  · exact h
  · exact h
  · -- the deletion of a batch
    split at h
    · simpa using h
    · cases h
  · exact h
  · exact h
  · -- the save
    split at h
    · simpa using h
    · cases h
  · cases h

/-! ## `put_result` as one step -/

/-- One step of an operation, or a whole `put_result`. -/
inductive ResultStep where
  | step (a : Act)
  | putResult (env : WorkEnv) (request : HttpRequest)

/-- The processes without locks, none of which stops inside a `put_result`. -/
def resultStepSystem (cfg : Config) : System (Table × (Nat → Proc)) (Nat × ResultStep) Output where
  step := fun st a =>
    match a.2 with
    | .step act =>
        match (st.2 a.1).act cfg (fun _ => true) st.1 act with
        | none => none
        | some (t, p, outputs) =>
            if p.locked.isSome then none else some ((t, Function.update st.2 a.1 p), outputs)
    | .putResult env request =>
        match st.2 a.1 with
        | .idle =>
            let ended := putResult cfg env request st.1
            some ((ended.table, st.2), ended.outputs)
        | _ => none

/-- A process inside its transaction, as the others see it. -/
def Proc.outside (p : Proc) : Proc :=
  if p.locked.isSome then .idle else p

theorem outside_of_locked {k : Nat} (h : p.locked = some k) : p.outside = .idle := by
  simp [Proc.outside, h]

theorem outside_of_unlocked (h : p.locked = none) : p.outside = p := by
  simp [Proc.outside, h]

/-- A request in flight would find its row on this table, and has come to where it stands with the
outputs `os`. -/
def Proc.Follows (cfg : Config) (t : Table) (os : List Output) : Proc → Prop
  | .working (.put request graderReply) s _ =>
      os = [] ∧ putResultChecks request t = .ok (s, graderReply)
  | .saving (.put request graderReply) c _ =>
      ∃ env s, putResultChecks request t = .ok (s, graderReply) ∧
        s.putResult cfg env request graderReply = (os, .ok c)
  | _ => os = []

theorem follows_of_unlocked (h : p.locked = none) : p.Follows cfg t os ↔ os = [] := by
  unfold Proc.Follows
  split
  · cases h
  · cases h
  · rfl

/-- The request does not look at any other row. -/
theorem Proc.Follows.mono (h : p.Follows cfg t os)
    (hrow : ∀ s ∈ t, p.locked = some s.id → s ∈ t') : p.Follows cfg t' os := by
  unfold Proc.Follows at h ⊢
  split at h
  · rcases h with ⟨hos, hchecks⟩
    rcases putResultChecks_iff_sends.1 hchecks with ⟨hs, hsends⟩
    exact ⟨hos, putResultChecks_iff_sends.2 ⟨hrow _ hs rfl, hsends⟩⟩
  · rcases h with ⟨env, s, hchecks, hwork⟩
    rcases putResultChecks_iff_sends.1 hchecks with ⟨hs, hsends⟩
    rcases putResult_eq_ok.1 hwork with ⟨acked, -, -, rfl⟩
    exact ⟨env, s, putResultChecks_iff_sends.2 ⟨hrow s hs rfl, hsends⟩, hwork⟩
  · exact h

/-- The state of the interleaved system, and the one in which the requests in flight have not begun. -/
structure Isolated (cfg : Config) (st : State) (pend : List (Nat × Output))
    (u : Table × (Nat → Proc)) : Prop where
  locks : Locks st
  outside : u = (st.table, Proc.outside ∘ st.proc)
  follows : ∀ pid, (st.proc pid).Follows cfg st.table (held pend pid)

variable {pend pend' : List (Nat × Output)} {u : Table × (Nat → Proc)}

theorem isolated_start : Isolated cfg (State.start t) [] (t, fun _ => .idle) where
  locks := locks_start
  outside := rfl
  follows := fun _ => rfl

/-- A step of one process: the requests of the others stand where they stood. -/
theorem Isolated.next (h : Isolated cfg st pend u)
    (hstep : st.step cfg (pid, a) = some (st', os))
    (hact : (st.proc pid).act cfg (st.free pid) st.table a = some (t, p, os))
    (hst : st' = ⟨t, st.relock pid p, Function.update st.proc pid p⟩)
    (hmine : p.Follows cfg t (held pend' pid)) (hother : ∀ q, q ≠ pid → held pend' q = held pend q)
    {u' : Table × (Nat → Proc)} (hu' : u' = (t, Function.update u.2 pid p.outside)) :
    Isolated cfg st' pend' u' := by
  subst hst
  refine ⟨h.locks.step hstep, ?_, ?_⟩
  · rw [hu', h.outside, Function.comp_update]
  · intro q
    by_cases hq : q = pid
    · subst hq
      simpa using hmine
    · simp only [Function.update_of_ne hq, hother q hq]
      exact (h.follows q).mono fun s hs hlocked =>
        mem_of_act hact hs (h.locks.free_eq_false hlocked hq)

/-- A step that emits nothing and leaves a request in flight where the others see it. -/
theorem follows_quiet (hu : u.2 pid = .idle) (hp : p.outside = .idle) :
    u = (u.1, Function.update u.2 pid p.outside) := by
  rw [hp, ← hu, Function.update_eq_self]

/-- A step outside all transactions is the same step of the other system, and the locked read of a
`put_result` is none. -/
theorem Isolated.unlocked (h : Isolated cfg st pend u) (hlocked : (st.proc pid).locked = none)
    (hstep : st.step cfg (pid, a) = some (st', os))
    (hact : (st.proc pid).act cfg (st.free pid) st.table a = some (t, p, os))
    (hst : st' = ⟨t, st.relock pid p, Function.update st.proc pid p⟩) :
    ∃ bs pend' u', Follows (resultStepSystem cfg) Free Prod.fst pid os pend u bs pend' u' ∧
      Isolated cfg st' pend' u' := by
  have hheld : held pend pid = [] := (follows_of_unlocked hlocked).1 (h.follows pid)
  have hproc : u.2 pid = st.proc pid := by
    rw [h.outside]
    exact outside_of_unlocked hlocked
  rcases put_of_act (h.locks.one pid) hact with
    hkeeps | ⟨request, graderReply, s, hp, hidle, ht, -, hchecks⟩
  · have hp : p.locked = none := by
      rcases hid : p.locked with _ | id
      · rfl
      · rw [hkeeps.locked id hid] at hlocked
        cases hlocked
    refine ⟨[(pid, .step a)], withdraw pend pid, (t, Function.update u.2 pid p),
      Follows.commits rfl trivial ?_, ?_⟩
    · have hfree : (u.2 pid).act cfg (fun _ => true) u.1 a = some (t, p, os) := by
        rw [hproc, h.outside]
        exact act_of_free hact
      simp [resultStepSystem, hfree, hp, hheld]
    · refine h.next hstep hact hst ?_ (fun q hq => held_withdraw_of_ne hq) ?_
      · exact (follows_of_unlocked hp).2 held_withdraw
      · rw [outside_of_unlocked hp]
  · -- the request begins where the others do not see it
    have hos : os = [] := by
      have hacted := acted_of_act hact
      rw [hidle] at hacted
      cases hacted with
      | quiet => rfl
      | invalidated => cases hp
      | read => rfl
    subst hos ht
    refine ⟨[], defer pend pid [], u, Follows.defers, ?_⟩
    refine h.next hstep hact hst ?_ (fun q hq => held_defer_of_ne hq) ?_
    · rw [hp]
      exact ⟨by rw [held_defer, hheld, List.append_nil], hchecks⟩
    · have htable : u.1 = st.table := by rw [h.outside]
      rw [← htable]
      exact follows_quiet (hproc.trans hidle) (by rw [hp]; rfl)

/-- The delivery of a request: an exception commits it, an outcome is to be saved. -/
theorem Isolated.delivered (h : Isolated cfg st pend u) {request : HttpRequest} {graderReply : PyStr}
    {rest : Rest} (hproc : st.proc pid = .working (.put request graderReply) s rest)
    (hstep : st.step cfg (pid, a) = some (st', os))
    (hact : (st.proc pid).act cfg (st.free pid) st.table a = some (t, p, os))
    (hst : st' = ⟨t, st.relock pid p, Function.update st.proc pid p⟩) :
    ∃ bs pend' u', Follows (resultStepSystem cfg) Free Prod.fst pid os pend u bs pend' u' ∧
      Isolated cfg st' pend' u' := by
  have hfollows := h.follows pid
  have hu : u.2 pid = .idle := by
    rw [h.outside]
    exact outside_of_locked (k := s.id) (by rw [hproc, Proc.locked])
  have htable : u.1 = st.table := by rw [h.outside]
  rw [hproc] at hfollows
  rcases hfollows with ⟨hheld, hchecks⟩
  have hact' := hact
  rw [hproc] at hact'
  cases a with
  | work env =>
      rcases hwork : s.putResult cfg env request graderReply with ⟨outputs, e | c⟩
      · -- the exception undoes the transaction: the whole request is one step here
        have heq : (t, p, os) = (st.table, Proc.idle, outputs) := by
          simpa [Proc.act, Task.work, hwork, eq_comm] using hact'
        cases heq
        refine ⟨[(pid, .putResult env request)], withdraw pend pid, (st.table, u.2),
          Follows.commits rfl trivial ?_, ?_⟩
        · simp [resultStepSystem, hu, putResult, htable, hchecks, hwork, Work.finish, hheld]
        · refine h.next hstep hact hst held_withdraw (fun q hq => held_withdraw_of_ne hq) ?_
          rw [@outside_of_unlocked .idle rfl, ← hu, Function.update_eq_self]
      · -- what has been sent waits for the save
        have heq : (t, p, os) = (st.table, Proc.saving (.put request graderReply) c rest, outputs) := by
          simpa [Proc.act, Task.work, hwork, eq_comm] using hact'
        cases heq
        refine ⟨[], defer pend pid os, u, Follows.defers, ?_⟩
        refine h.next hstep hact hst ?_ (fun q hq => held_defer_of_ne hq) ?_
        · refine ⟨env, s, hchecks, ?_⟩
          rw [held_defer, hheld, List.nil_append]
          exact hwork
        · rw [← htable]
          exact follows_quiet hu rfl
  | _ => cases hact'

/-- The save of a request commits it: its row is still stored as it was read. -/
theorem Isolated.saved (h : Isolated cfg st pend u) {request : HttpRequest} {graderReply : PyStr}
    {rest : Rest} (hproc : st.proc pid = .saving (.put request graderReply) c rest)
    (hstep : st.step cfg (pid, a) = some (st', os))
    (hact : (st.proc pid).act cfg (st.free pid) st.table a = some (t, p, os))
    (hst : st' = ⟨t, st.relock pid p, Function.update st.proc pid p⟩) :
    ∃ bs pend' u', Follows (resultStepSystem cfg) Free Prod.fst pid os pend u bs pend' u' ∧
      Isolated cfg st' pend' u' := by
  have hfollows := h.follows pid
  have hlocked : (st.proc pid).locked = some c.id := by rw [hproc, Proc.locked]
  have hu : u.2 pid = .idle := by
    rw [h.outside]
    exact outside_of_locked hlocked
  have htable : u.1 = st.table := by rw [h.outside]
  have hone := h.locks.one pid
  rw [hproc] at hfollows hone
  rcases hfollows with ⟨env, s, hchecks, hwork⟩
  cases hone
  have hact' := hact
  rw [hproc] at hact'
  cases a with
  | save fetch now =>
      have heq : (t, p, os) = (save now c st.table, Proc.idle, []) := by
        simpa [Proc.act, h.locks.free_of_locked hlocked, Task.finish, Task.resume, eq_comm] using hact'
      cases heq
      -- nobody has written the locked row since it was read
      have hget : st.table.get? c.id = some s := by
        rcases putResult_eq_ok.1 hwork with ⟨acked, -, -, rfl⟩
        exact KeyedTable.get?_of_mem (putResultChecks_iff_sends.1 hchecks).1
      have hsave : save now c st.table = save env.now c st.table := by
        rw [save, save, asStored_of_get? hget, asStored_of_get? hget]
      refine ⟨[(pid, .putResult env request)], withdraw pend pid, (save now c st.table, u.2),
        Follows.commits rfl trivial ?_, ?_⟩
      · simp [resultStepSystem, hu, putResult, htable, hchecks, hwork, Work.finish, hsave]
      · refine h.next hstep hact hst held_withdraw (fun q hq => held_withdraw_of_ne hq) ?_
        rw [@outside_of_unlocked .idle rfl, ← hu, Function.update_eq_self]
  | _ => cases hact'

/-- A process that has locked a row is at its `put_result`. -/
theorem put_of_locked {id : Nat} (h : p.locked = some id) :
    ∃ request graderReply c rest, c.id = id ∧
      (p = .working (.put request graderReply) c rest ∨ p = .saving (.put request graderReply) c rest) := by
  unfold Proc.locked at h
  split at h
  · cases h
    exact ⟨_, _, _, _, rfl, Or.inl rfl⟩
  · cases h
    exact ⟨_, _, _, _, rfl, Or.inr rfl⟩
  · cases h

theorem Isolated.step (h : Isolated cfg st pend u) (hstep : st.step cfg (pid, a) = some (st', os)) :
    ∃ bs pend' u', Follows (resultStepSystem cfg) Free Prod.fst pid os pend u bs pend' u' ∧
      Isolated cfg st' pend' u' := by
  rcases act_of_step hstep with ⟨t, p, hact, hst⟩
  rcases hlocked : (st.proc pid).locked with _ | id
  · exact h.unlocked hlocked hstep hact hst
  · rcases put_of_locked hlocked with ⟨request, graderReply, c, rest, -, hproc | hproc⟩
    · exact h.delivered hproc hstep hact hst
    · exact h.saved hproc hstep hact hst

/-- Every interleaving of any number of operations comes to the table, the processes and the outputs
of a run in which each `put_result` is one step, taken at its save (or at the exception that undoes
it); what is missing has been sent by requests that have not been saved yet. -/
theorem put_result_isolated {ok : State → Nat × Act → Prop} {as : List (Nat × Act)}
    (h : Run (interleavedSystem cfg) ok (State.start t) as os st) :
    ∃ blocks ps, ∃ pend : List (Nat × Output), List.Forall₂ (Matches Prod.fst Prod.fst) as blocks ∧
      Run (resultStepSystem cfg) Free (t, fun _ => .idle) blocks.flatten ps
        (st.table, Proc.outside ∘ st.proc) ∧
      os.Perm (ps ++ pend.map Prod.snd) ∧
      ∀ pid o, (pid, o) ∈ pend →
        ∃ request graderReply c, st.proc pid = .saving (.put request graderReply) c ⟨[], []⟩ := by
  have hstart : Isolated cfg (State.start t) [] (t, fun _ => Proc.idle) := isolated_start
  rcases h.deferred (resultStepSystem cfg) Free Prod.fst Prod.fst (R := Isolated cfg) hstart
    (fun hR _ hs => hR.step hs) with ⟨blocks, ps, pend, u, hmatch, hrun, hR, hperm⟩
  rw [hR.outside] at hrun
  refine ⟨blocks, ps, pend, hmatch, hrun, hperm, ?_⟩
  intro pid o hmem
  -- only a request that is to be saved has sent something
  have hne : held pend pid ≠ [] := List.ne_nil_of_mem (mem_held.2 hmem)
  have hfollows := hR.follows pid
  have hone := hR.locks.one pid
  generalize st.proc pid = p at hfollows hone ⊢
  unfold Proc.Follows at hfollows
  split at hfollows
  · exact absurd hfollows.1 hne
  · cases hone
    exact ⟨_, _, _, rfl⟩
  · exact absurd hfollows hne

theorem twoResults_steps :
    ((interleavedSystem devSettings).exec (State.start pulledTable) twoResults).isSome := by
  decide +kernel

/-- Two results for one row, and a pull that is still to be saved. -/
theorem put_result_isolated_twoResults :
    let next := ((interleavedSystem devSettings).exec (State.start pulledTable) twoResults).get
      twoResults_steps
    (∃ bs ps, ∃ pend : List (Nat × Output), Run (resultStepSystem devSettings) Free
      (pulledTable, fun _ => .idle) bs ps (next.1.table, Proc.outside ∘ next.1.proc) ∧
        next.2.Perm (ps ++ pend.map Prod.snd)) ∧ next.2.length = 4 := by
  rcases put_result_isolated (run_get twoResults_steps) with ⟨blocks, ps, pend, -, hrun, hperm, -⟩
  exact ⟨⟨blocks.flatten, ps, pend, hrun, hperm⟩, by decide +kernel⟩

end Xqueue
