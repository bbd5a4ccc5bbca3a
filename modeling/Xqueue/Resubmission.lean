import Xqueue.Deployment
import Xqueue.Interleaved

/-!
# Resubmission — a submit and the submissions before it

A submit request retires the prior submissions of its callback in a transaction of its own,
before the uploads and the INSERT, and finds them by the first 128 characters of the URL.

* `submit_unchanged_iff` : what a submit leaves when it fails after validation;
* `one_live_iff` : when concurrent submits keep one live submission for each callback;
* `superseded_iff` : when a submit spares the submissions of every other callback.
-/

namespace Xqueue

open Library
open Library.System

variable {cfg : Config} {t : Table} {r s : Submission} {callback k : PyStr} {os : List Output}

/-! ## A submit that fails -/

def Output.isInserted : Output → Bool
  | .inserted _ _ => true
  | _ => false

/-- The operation has inserted a row. -/
def Ended.inserts {α : Type} (ended : Ended α) : Bool :=
  ended.outputs.any Output.isInserted

/-- The invalidation does nothing exactly when there is nothing to invalidate. -/
theorem invalidate_eq_self_iff :
    invalidatePriorSubmissions callback t = t ↔ ∀ r ∈ t, isPrior callback r = false := by
  constructor
  · intro h r hr
    by_contra hprior
    -- the retired row would be in the table already, under the same id
    have hmem : r.retire ∈ t := by
      rw [← h]
      exact mem_invalidate.2 ⟨r, hr, by simp [hprior]⟩
    have heq : r.retire = r := KeyedTable.eq_of_key_eq hmem hr id_retire
    have hretired : r.retired = true := congrArg Submission.retired heq.symm
    simp [isPrior, hretired] at hprior
  · exact KeyedTable.updateWhere_of_forall_not

/-- When a valid request ends without its row, the table is as it was exactly if no live
submission was stored under its callback. -/
theorem submit_unchanged_iff {σ : Type} {storage : Storage σ} {env : SubmitEnv}
    {request : HttpRequest} {st : σ} {valid : ValidRequest}
    (hvalid : submitChecks cfg request = .ok valid)
    (hfail : (submit cfg storage env request st t).2.inserts = false) :
    (submit cfg storage env request st t).2.table = t ↔
      ∀ callback, storedCallback cfg valid.lmsCallbackUrl = .ok callback →
        ∀ r ∈ t, isPrior callback r = false := by
  cases hcallback : storedCallback cfg valid.lmsCallbackUrl with
  | error e => simp [submit, hvalid, hcallback]
  | ok callback =>
      rcases storeSubmission_cases cfg storage env request valid callback st
        (invalidatePriorSubmissions callback t) with
        ⟨htable, -⟩ | ⟨urlsJson, keysJson, -, -, -, hout⟩
      · simp [submit, hvalid, hcallback, htable, invalidate_eq_self_iff]
      · simp [submit, hvalid, hcallback, Ended.inserts, hout, Output.isInserted] at hfail

/-- A storage that is down. -/
def failingStorage : Storage Nat where
  save := fun st _ _ => (st, .error .storageError)
  url := fun _ _ => .error .storageError

/-- A job with an uploaded file. -/
def jobWithFile (url : PyStr) : HttpRequest :=
  { jobFor url with
    files := [(py "answer.txt", py "text")]
    encodable_files := by decide
    nodup_files := by decide }

theorem lmsCallbackUrl_jobHeader {url : PyStr} (h : PyStr.Encodable url) :
    lmsCallbackUrl (jobHeader url (py "test-pull")) = .ok (.str url) := by
  have hurl := lmsCallbackUrl_of_submitChecks (submitChecks_jobFor h)
  exact hurl

theorem submitChecks_jobWithFile {url : PyStr} (h : PyStr.Encodable url) :
    submitChecks devSettings (jobWithFile url) =
      .ok ⟨.str url, py "test-pull", jobHeader url (py "test-pull"), py "answer"⟩ := by
  have hjob := submitChecks_jobFor h
  exact hjob

/-- The upload of another student fails and changes nothing. -/
theorem submit_unchanged_iff_otherStudent :
    (submit devSettings failingStorage ⟨clockAt 1, clockAt 1, true⟩
      (jobWithFile (py "/lms/2/problem")) 0 pendingTable).2.table = pendingTable := by
  refine (submit_unchanged_iff (submitChecks_jobWithFile (by decide)) (by decide +kernel)).2 ?_
  intro callback hcallback
  rw [storedCallback_str hcallback]
  decide +kernel

/-- The upload of the same student fails, and the pending submission is retired. -/
theorem pending_submission_lost :
    ¬ (∀ (cfg : Config) (storage : Storage Nat) (env : SubmitEnv) (request : HttpRequest)
        (valid : ValidRequest) (t : Table), submitChecks cfg request = .ok valid →
      (submit cfg storage env request 0 t).2.inserts = false →
        (submit cfg storage env request 0 t).2.table = t) := by
  intro h
  have heq := h devSettings failingStorage ⟨clockAt 1, clockAt 1, true⟩
    (jobWithFile (py "/lms/1/problem")) _ pendingTable (submitChecks_jobWithFile (by decide))
    (by decide +kernel)
  have hretired := congrArg (fun t => t.rows.map Submission.retired) heq
  revert hretired
  decide +kernel

/-! ## Concurrent submits -/

/-- A step of a submit request. -/
def Act.isSubmitStep : Act → Bool
  | .submit _ => true
  | .store _ _ => true
  | _ => false

/-- At most one unretired row is stored under each callback. -/
def OneLive (t : Table) : Prop :=
  ∀ r ∈ t, ∀ s ∈ t, r.retired = false → s.retired = false →
    r.lmsCallbackUrl = s.lmsCallbackUrl → r = s

/-- What an output does to an insertion that waits for an invalidation of its callback. -/
def pendingAfter (callback : PyStr) (pending : Bool) : Output → Bool
  | .invalidated k => if k = callback then false else pending
  | .inserted _ row => if row.lmsCallbackUrl = callback then true else pending
  | _ => pending

/-- A row has been inserted under the callback since its last invalidation. -/
def isPending (callback : PyStr) (os : List Output) : Bool :=
  os.foldl (pendingAfter callback) false

/-- The output is not an insertion on top of another one. -/
def separatedAt (before : List Output) : Output → Bool
  | .inserted _ row => !isPending row.lmsCallbackUrl before
  | _ => true

/-- Between two insertions under one callback there is an invalidation of it. -/
def Separated (os : List Output) : Prop :=
  ∀ i (h : i < os.length), separatedAt (os.take i) os[i] = true

instance (os : List Output) : Decidable (Separated os) :=
  inferInstanceAs (Decidable (∀ i (h : i < os.length), separatedAt (os.take i) os[i] = true))

theorem isPending_concat {o : Output} :
    isPending callback (os ++ [o]) = pendingAfter callback (isPending callback os) o := by
  simp [isPending]

theorem separated_of_append {o : List Output} (h : Separated (os ++ o)) : Separated os := by
  intro i hi
  have := h i (by simp; omega)
  rwa [List.take_append_of_le_length (Nat.le_of_lt hi), List.getElem_append_left hi] at this

theorem separated_concat {o : Output} :
    Separated (os ++ [o]) ↔ Separated os ∧ separatedAt os o = true := by
  constructor
  · intro h
    refine ⟨separated_of_append h, ?_⟩
    simpa using h os.length (by simp)
  · rintro ⟨hall, hlast⟩ i hi
    -- either an earlier output or the last one
    rcases Nat.lt_or_ge i os.length with hlt | hge
    · rw [List.take_append_of_le_length (Nat.le_of_lt hlt), List.getElem_append_left hlt]
      exact hall i hlt
    · have : i = os.length := by
        simp at hi
        omega
      subst this
      simpa using hlast

/-- No unretired row is stored under the callback. -/
def NoneLive (callback : PyStr) (t : Table) : Prop :=
  ∀ r ∈ t, isPrior callback r = false

theorem noneLive_invalidate :
    NoneLive k (invalidatePriorSubmissions callback t) ↔ callback = k ∨ NoneLive k t := by
  constructor
  · intro h
    by_cases hk : callback = k
    · exact Or.inl hk
    · right
      intro r hr
      by_cases hprior : isPrior callback r = true
      · -- a row under another callback
        have := (isPrior_iff.1 hprior).1
        simp [isPrior, this, hk]
      · exact h r (mem_invalidate_of_not_isPrior hr (by simpa using hprior))
  · rintro h r hr
    rcases mem_invalidate_cases hr with ⟨s, -, -, rfl⟩ | ⟨hold, hprior⟩
    · exact isPrior_retire
    · rcases h with rfl | h
      · exact hprior
      · exact h r hold

section Insertion

variable {request : HttpRequest} {valid : ValidRequest} {s3Urls s3Keys : PyStr} {now : DateTime}

theorem noneLive_insert :
    NoneLive k (t.insert (newSubmission request valid callback s3Urls s3Keys now) (fun _ => rfl)) ↔
      NoneLive k t ∧ callback ≠ k := by
  have hnew : isPrior k (newSubmission request valid callback s3Urls s3Keys now t.nextKey) = false ↔
      callback ≠ k := by
    simp [isPrior, newSubmission]
  constructor
  · intro h
    exact ⟨fun r hr => h r (KeyedTable.mem_insert.2 (Or.inl hr)),
      hnew.1 (h _ (KeyedTable.mem_insert.2 (Or.inr rfl)))⟩
  · rintro ⟨hall, hne⟩ r hr
    rcases KeyedTable.mem_insert.1 hr with hr | rfl
    · exact hall r hr
    · exact hnew.2 hne

/-- An insertion keeps one live row for each callback if it finds none for its own. -/
theorem oneLive_insert :
    OneLive (t.insert (newSubmission request valid callback s3Urls s3Keys now) (fun _ => rfl)) ↔
      OneLive t ∧ NoneLive callback t := by
  constructor
  · intro h
    constructor
    · intro r hr s hs
      exact h r (KeyedTable.mem_insert.2 (Or.inl hr)) s (KeyedTable.mem_insert.2 (Or.inl hs))
    · intro r hr
      by_contra hprior
      rcases isPrior_iff.1 (by simpa using hprior) with ⟨hcallback, hret⟩
      have heq := h r (KeyedTable.mem_insert.2 (Or.inl hr)) _ (KeyedTable.mem_insert.2 (Or.inr rfl))
        hret rfl hcallback
      -- the new key is not stored yet
      have hlt : r.id < t.nextKey := t.fresh r hr
      have hid : r.id = t.nextKey := congrArg Submission.id heq
      omega
  · rintro ⟨hone, hnone⟩ r hr s hs hrlive hslive hcallback
    rcases KeyedTable.mem_insert.1 hr with hr | rfl <;> rcases KeyedTable.mem_insert.1 hs with hs | rfl
    · exact hone r hr s hs hrlive hslive hcallback
    · have hprior : isPrior callback r = true := isPrior_iff.2 ⟨hcallback, hrlive⟩
      rw [hnone r hr] at hprior
      cases hprior
    · have hprior : isPrior callback s = true := isPrior_iff.2 ⟨hcallback.symm, hslive⟩
      rw [hnone s hs] at hprior
      cases hprior
    · rfl

end Insertion

theorem oneLive_invalidate (h : OneLive t) : OneLive (invalidatePriorSubmissions callback t) := by
  -- an unretired row of the new table is a row of the old one
  have hold : ∀ x ∈ invalidatePriorSubmissions callback t, x.retired = false → x ∈ t := by
    intro x hx hlive
    rcases mem_invalidate_cases hx with ⟨y, -, -, rfl⟩ | ⟨hmem, -⟩
    · cases hlive
    · exact hmem
  intro r hr s hs hrlive hslive hcallback
  exact h r (hold r hr hrlive) s (hold s hs hslive) hrlive hslive hcallback

/-- The processes of submit requests. -/
def Proc.Submits (os : List Output) : Proc → Prop
  | .idle => True
  | .submitting _ _ callback => .invalidated callback ∈ os
  | _ => False

/-- Every effect of a step of a submit request. -/
inductive SubmitActed (cfg : Config) (t : Table) : Proc → Table → Proc → List Output → Prop
  | quiet {p : Proc} : SubmitActed cfg t p t .idle []
  | invalidated (request : HttpRequest) (valid : ValidRequest) (callback : PyStr) :
      SubmitActed cfg t .idle (invalidatePriorSubmissions callback t)
        (.submitting request valid callback) [.invalidated callback]
  | inserted (request : HttpRequest) (valid : ValidRequest) (callback s3Urls s3Keys : PyStr)
      (now : DateTime) :
      SubmitActed cfg t (.submitting request valid callback)
        (t.insert (newSubmission request valid callback s3Urls s3Keys now) (fun _ => rfl)) .idle
        [.inserted request (newSubmission request valid callback s3Urls s3Keys now t.nextKey)]

variable {free : Nat → Bool} {t' : Table} {p p' : Proc} {a : Act} {o : List Output}

theorem submitActed_of_act (hp : p.Submits os) (ha : a.isSubmitStep = true)
    (h : p.act cfg free t a = some (t', p', o)) : SubmitActed cfg t p t' p' o := by
  cases p with
  | idle =>
      cases a with
      | submit request =>
          simp only [Proc.act] at h
          split at h
          · cases h
            exact SubmitActed.quiet
          · split at h
            · cases h
              exact SubmitActed.quiet
            · split at h
              · cases h
                exact SubmitActed.invalidated _ _ _
              · cases h
      | store storage env => simp [Proc.act] at h
      | _ => simp [Act.isSubmitStep] at ha
  | submitting request valid callback =>
      cases a with
      | submit request => simp [Proc.act] at h
      | store storage env =>
          simp only [Proc.act] at h
          rcases storeSubmission_cases cfg storage env request valid callback 0 t with
            ⟨htable, hout⟩ | ⟨urlsJson, keysJson, -, -, htable, hout⟩
          · rw [htable, hout] at h
            cases h
            exact SubmitActed.quiet
          · rw [htable, hout] at h
            cases h
            exact SubmitActed.inserted request valid callback urlsJson keysJson env.now
      | _ => simp [Act.isSubmitStep] at ha
  | _ => exact hp.elim

/-- What the outputs of submit requests say about the state: a request that has still to insert
has invalidated, and then a live row under its callback has been inserted since. -/
structure Matched (os : List Output) (st : State) : Prop where
  procs : ∀ pid, (st.proc pid).Submits os
  live : ∀ callback, .invalidated callback ∈ os →
    (NoneLive callback st.table ↔ isPending callback os = false)

theorem submits_append (h : p.Submits os) (o : List Output) : p.Submits (os ++ o) := by
  cases p with
  | idle => trivial
  | submitting request valid callback => exact List.mem_append_left o h
  | _ => exact h.elim

/-- A step keeps the match, and keeps one live row for each callback unless it inserts on top of
another insertion. -/
theorem matched_step {st st' : State} {pid : Nat} (h : Matched os st) (ha : a.isSubmitStep = true)
    (hstep : st.step cfg (pid, a) = some (st', o)) :
    Matched (os ++ o) st' ∧
      (OneLive st.table → (OneLive st'.table ∧ Separated os ↔ Separated (os ++ o))) := by
  simp only [State.step] at hstep
  split at hstep
  · cases hstep
  · rename_i t' p' o' hact
    cases hstep
    have hp := h.procs pid
    have hacted := submitActed_of_act hp ha hact
    generalize st.proc pid = p at hp hact hacted
    have hprocs : p'.Submits (os ++ o) →
        ∀ q, (Function.update st.proc pid p' q).Submits (os ++ o) := by
      intro hp' q
      by_cases hq : q = pid
      · subst hq
        simpa using hp'
      · simpa [Function.update_of_ne hq] using submits_append (h.procs q) o
    cases hacted with
    | quiet =>
        refine ⟨⟨hprocs trivial, by simpa using h.live⟩, ?_⟩
        intro hone
        simp [hone]
    | invalidated request valid callback =>
        refine ⟨⟨hprocs (by simp [Proc.Submits]), ?_⟩, ?_⟩
        · intro k hk
          by_cases hck : callback = k
          · simp [noneLive_invalidate, isPending_concat, pendingAfter, hck]
          · have hmem : .invalidated k ∈ os := by simpa [Ne.symm hck] using hk
            simpa [noneLive_invalidate, isPending_concat, pendingAfter, hck] using h.live k hmem
        · intro hone
          simp [separated_concat, separatedAt, oneLive_invalidate hone]
    | inserted request valid callback s3Urls s3Keys now =>
        refine ⟨⟨hprocs trivial, ?_⟩, ?_⟩
        · intro k hk
          have hmem : .invalidated k ∈ os := by simpa using hk
          -- the new output makes an insertion pending under its own callback only
          have hpending : isPending k (os ++ [.inserted request
              (newSubmission request valid callback s3Urls s3Keys now st.table.nextKey)]) = false ↔
              isPending k os = false ∧ callback ≠ k := by
            by_cases hck : callback = k <;>
              simp [isPending_concat, pendingAfter, newSubmission, hck]
          calc
            NoneLive k (st.table.insert
                (newSubmission request valid callback s3Urls s3Keys now) (fun _ => rfl))
                ↔ NoneLive k st.table ∧ callback ≠ k := noneLive_insert
            _ ↔ isPending k os = false ∧ callback ≠ k := and_congr_left' (h.live k hmem)
            _ ↔ isPending k (os ++ [.inserted request (newSubmission request valid callback s3Urls
                  s3Keys now st.table.nextKey)]) = false := hpending.symm
        · intro hone
          have hat : separatedAt os (.inserted request
              (newSubmission request valid callback s3Urls s3Keys now st.table.nextKey)) = true ↔
              NoneLive callback st.table := by
            simp [separatedAt, newSubmission, h.live callback hp]
          calc
            OneLive (st.table.insert
                (newSubmission request valid callback s3Urls s3Keys now) (fun _ => rfl)) ∧ Separated os
                ↔ (OneLive st.table ∧ NoneLive callback st.table) ∧ Separated os :=
              and_congr_left' oneLive_insert
            _ ↔ Separated os ∧ NoneLive callback st.table := by
              rw [and_iff_right hone, and_comm]
            _ ↔ Separated (os ++ [.inserted request (newSubmission request valid callback s3Urls
                  s3Keys now st.table.nextKey)]) := by
              rw [separated_concat, hat]

/-- Concurrent submits keep at most one live row under each stored callback at every moment
exactly when no two INSERTs under one callback follow each other without an invalidation of it
between them. -/
theorem one_live_iff {as : List (Nat × Act)} {st : State} (hone : OneLive t)
    (h : Run (interleavedSystem cfg) (fun _ a => a.2.isSubmitStep = true) (State.start t) as os st) :
    (∀ v, (interleavedSystem cfg).Visits (State.start t) as v → OneLive v.table) ↔ Separated os := by
  suffices Matched os st ∧
      ((∀ v, (interleavedSystem cfg).Visits (State.start t) as v → OneLive v.table) ↔
        Separated os) from this.2
  -- by induction over the run, one step at a time
  induction h with
  | nil =>
      refine ⟨⟨fun _ => trivial, by simp⟩, ?_⟩
      rw [forall_visits_nil]
      exact iff_of_true hone (fun i hi => absurd hi (Nat.not_lt_zero i))
  | @snoc st u as os o a hrun ha hstep ih =>
      rcases ih with ⟨hmatched, hiff⟩
      rcases matched_step hmatched ha hstep with ⟨hmatched', hnext⟩
      refine ⟨hmatched', ?_⟩
      rw [forall_visits_snoc hrun hstep]
      constructor
      · rintro ⟨hall, hu⟩
        exact (hnext (hall st ⟨as, os, List.prefix_rfl, hrun.free⟩)).1 ⟨hu, hiff.1 hall⟩
      · intro hsep
        have hbefore : Separated os := separated_of_append hsep
        have hall := hiff.2 hbefore
        exact ⟨hall, ((hnext (hall st ⟨as, os, List.prefix_rfl, hrun.free⟩)).2 hsep).1⟩

/-- Two requests for the same callback, one after the other. -/
def successiveSubmits : List (Nat × Act) :=
  let submit := Act.submit (jobFor (py "/lms/1/problem"))
  let store := fun minute => Act.store pathStorage ⟨clockAt minute, clockAt minute, true⟩
  [(1, submit), (1, store 1), (2, submit), (2, store 2)]

/-- The same two requests, the second of which starts before the first has inserted its row. -/
def overlappingSubmits : List (Nat × Act) :=
  let submit := Act.submit (jobFor (py "/lms/1/problem"))
  let store := fun minute => Act.store pathStorage ⟨clockAt minute, clockAt minute, true⟩
  [(1, submit), (2, submit), (1, store 1), (2, store 2)]

theorem successiveSubmits_runs : ((interleavedSystem devSettings).exec (State.start pendingTable)
    successiveSubmits).isSome := by
  decide +kernel

theorem overlappingSubmits_runs : ((interleavedSystem devSettings).exec (State.start pendingTable)
    overlappingSubmits).isSome := by
  decide +kernel

theorem oneLive_pendingTable : OneLive pendingTable := by
  unfold OneLive
  decide +kernel

theorem one_live_iff_successiveSubmits :
    OneLive pendingTable ∧
      ∀ v, (interleavedSystem devSettings).Visits (State.start pendingTable) successiveSubmits v →
        OneLive v.table := by
  have hrun := (run_get successiveSubmits_runs).of_forall_mem
    (c := fun a => a.2.isSubmitStep = true) (by decide)
  exact ⟨oneLive_pendingTable, (one_live_iff oneLive_pendingTable hrun).2 (by decide +kernel)⟩

/-- Both rows are live under the callback. -/
theorem two_live_submissions :
    ¬ (∀ cfg t as os st, OneLive t →
      Run (interleavedSystem cfg) (fun _ a => a.2.isSubmitStep = true) (State.start t) as os st →
        OneLive st.table) := by
  intro h
  have hrun := (run_get overlappingSubmits_runs).of_forall_mem
    (c := fun a => a.2.isSubmitStep = true) (by decide)
  have hone := h _ _ _ _ _ oneLive_pendingTable hrun
  revert hone
  unfold OneLive
  decide +kernel

/-! ## Callbacks beyond 128 characters -/

/-- The header names a callback, and the column holds its first 128 characters. -/
def CallbackStored (cfg : Config) (s : Submission) : Prop :=
  ∃ url, lmsCallbackUrl s.xqueueHeader = .ok url ∧ storedCallback cfg url = .ok s.lmsCallbackUrl

theorem callbackStored_of_origin (h : CallbackStored cfg s) (heq : r.origin = s.origin) :
    CallbackStored cfg r := by
  have hheader : r.xqueueHeader = s.xqueueHeader := congrArg Origin.xqueueHeader heq
  have hcallback : r.lmsCallbackUrl = s.lmsCallbackUrl := congrArg Origin.lmsCallbackUrl heq
  rw [CallbackStored, hheader, hcallback]
  exact h

theorem callbackStored_moved {performs : Performs} {u u' : Table} {o : List Output}
    (h : ∀ r ∈ u, CallbackStored cfg r) (hm : Moved cfg performs u u' o) :
    ∀ r ∈ u', CallbackStored cfg r := by
  cases hm with
  | raised => exact h
  | undone => exact h
  | @saved task env s c os fetch now hs hp hwork =>
      intro r hr
      rcases (mem_save_worked hs hwork).1 hr with rfl | ⟨hr, -⟩
      · exact callbackStored_of_origin (h s hs) (origin_of_work hwork)
      · exact h r hr
  | superseded callback =>
      intro r hr
      rcases mem_invalidate_cases hr with ⟨s, hs, -, rfl⟩ | ⟨hr, -⟩
      · exact h s hs
      · exact h r hr
  | @inserted request valid callback s3Urls s3Keys now hchecks hcallback hurls =>
      intro r hr
      rcases KeyedTable.mem_insert.1 hr with hr | rfl
      · exact h r hr
      · exact ⟨valid.lmsCallbackUrl, lmsCallbackUrl_of_submitChecks hchecks, hcallback⟩

theorem callbackStored_of_reachable (h : (atomicSystem cfg).Reachable KeyedTable.empty t) :
    ∀ r ∈ t, CallbackStored cfg r := by
  rcases h with ⟨es, os, hrun⟩
  -- header and column are written once, by the insertion
  refine moves_invariant (I := fun _ u => ∀ r ∈ u, CallbackStored cfg r) hrun ?_ ?_
  · intro r hr
    exact absurd hr KeyedTable.not_mem_empty
  · intro _ _ _ _ _ _ _ hI hm
    exact callbackStored_moved hI hm

/-- What a submit does to the rows before it: the rows it supersedes are retired, every other
row stays. -/
theorem mem_submit {σ : Type} (storage : Storage σ) (env : SubmitEnv) {request : HttpRequest}
    (st : σ) {valid : ValidRequest} (hvalid : submitChecks cfg request = .ok valid)
    (hcallback : storedCallback cfg valid.lmsCallbackUrl = .ok callback) (hr : r ∈ t) :
    (if isPrior callback r then r.retire else r) ∈ (submit cfg storage env request st t).2.table := by
  have hmem : (if isPrior callback r then r.retire else r) ∈ invalidatePriorSubmissions callback t :=
    mem_invalidate.2 ⟨r, hr, rfl⟩
  simp only [submit, hvalid, hcallback]
  rcases storeSubmission_cases cfg storage env request valid callback st
    (invalidatePriorSubmissions callback t) with ⟨htable, -⟩ | ⟨urlsJson, keysJson, -, -, htable, -⟩
  · rwa [htable]
  · rw [htable]
    exact KeyedTable.mem_insert.2 (Or.inl hmem)

/-- A submit retires every live row whose header names its callback, and it leaves the rows with
another callback alone exactly if no live one among them has the same first 128 characters. -/
theorem superseded_iff {σ : Type} {storage : Storage σ} {env : SubmitEnv} {request : HttpRequest}
    {st : σ} {valid : ValidRequest} (ht : (atomicSystem cfg).Reachable KeyedTable.empty t)
    (hvalid : submitChecks cfg request = .ok valid) :
    (∀ r ∈ t, r.retired = false → lmsCallbackUrl r.xqueueHeader = .ok valid.lmsCallbackUrl →
      r.retire ∈ (submit cfg storage env request st t).2.table) ∧
    ((∀ r ∈ t, ∀ url, lmsCallbackUrl r.xqueueHeader = .ok url → url ≠ valid.lmsCallbackUrl →
        r ∈ (submit cfg storage env request st t).2.table) ↔
      ∀ r ∈ t, r.retired = false → ∀ url, lmsCallbackUrl r.xqueueHeader = .ok url →
        url ≠ valid.lmsCallbackUrl → ∀ callback, storedCallback cfg url = .ok callback →
          storedCallback cfg valid.lmsCallbackUrl ≠ .ok callback) := by
  -- the column of a row is the prefix of the callback that its header names
  have hcolumn : ∀ r ∈ t, ∀ url, lmsCallbackUrl r.xqueueHeader = .ok url →
      storedCallback cfg url = .ok r.lmsCallbackUrl := by
    intro r hr url hurl
    rcases callbackStored_of_reachable ht r hr with ⟨url', hurl', hcallback⟩
    rw [hurl] at hurl'
    cases hurl'
    exact hcallback
  have hretire : ∀ r ∈ t, r.retired = false →
      storedCallback cfg valid.lmsCallbackUrl = .ok r.lmsCallbackUrl →
        r.retire ∈ (submit cfg storage env request st t).2.table := by
    intro r hr hlive hcallback
    have hprior : isPrior r.lmsCallbackUrl r = true := isPrior_iff.2 ⟨rfl, hlive⟩
    simpa [hprior] using mem_submit storage env st hvalid hcallback hr
  refine ⟨fun r hr hlive hurl => hretire r hr hlive (hcolumn r hr _ hurl), ?_⟩
  constructor
  · intro hall r hr hlive url hurl hne callback hcallback hsame
    have hmem := hall r hr url hurl hne
    rw [← hcallback, hcolumn r hr url hurl] at hsame
    -- the row would be stored as it was and as retired
    have heq : r.retire = r := KeyedTable.eq_of_key_eq (hretire r hr hlive hsame) hmem id_retire
    have hretired : r.retired = true := congrArg Submission.retired heq.symm
    rw [hlive] at hretired
    cases hretired
  · intro hcond r hr url hurl hne
    cases hcallback : storedCallback cfg valid.lmsCallbackUrl with
    | error e => simpa [submit, hvalid, hcallback] using hr
    | ok callback =>
        have hmem := mem_submit storage env st hvalid hcallback hr
        -- a row that is superseded has the prefix in its column
        by_cases hprior : isPrior callback r = true
        · rcases isPrior_iff.1 hprior with ⟨rfl, hlive⟩
          exact absurd hcallback (hcond r hr hlive url hurl hne _ (hcolumn r hr url hurl))
        · simpa [hprior] using hmem

/-- The submission of another student stays. -/
theorem superseded_iff_otherStudent :
    pendingTable.rows.map Submission.retired = [false] ∧
    ∀ r ∈ pendingTable, ∀ url, lmsCallbackUrl r.xqueueHeader = .ok url →
      url ≠ .str (py "/lms/2/problem") →
        r ∈ (submit devSettings pathStorage ⟨clockAt 1, clockAt 1, true⟩
          (jobFor (py "/lms/2/problem")) 0 pendingTable).2.table := by
  refine ⟨by decide +kernel, ?_⟩
  refine (superseded_iff (reachable_tableAfter devSettings _ _)
    (submitChecks_jobFor (by decide))).2.2 ?_
  intro r hr _ url hurl _ callback hcallback hsame
  rcases callbackStored_of_reachable (reachable_tableAfter devSettings _ _) r hr with
    ⟨url', hurl', hcolumn⟩
  rw [hurl] at hurl'
  cases hurl'
  rw [hcallback, Except.ok.injEq] at hcolumn
  rw [storedCallback_str hsame] at hcolumn
  have hother : ∀ s ∈ pendingTable.rows, (py "/lms/2/problem").take 128 ≠ s.lmsCallbackUrl := by
    decide +kernel
  exact hother r hr hcolumn

/-- A callback whose user and module lie beyond the first 128 characters. -/
def longCallback (module : PyStr) : PyStr :=
  py "/courses/course-v1:University+Introduction_to_Programming+2026_Spring_Semester_Evening_Group/"
    ++ py "xqueue/20260101_cohort_of_the_evening_group/" ++ module

def longTable : Table :=
  tableAfter devSettings [.submit pathStorage ⟨clockAt 0, clockAt 0, true⟩
    (jobFor (longCallback (py "1/problem")))] KeyedTable.empty

/-- The submit of one student retires the pending submission of another. -/
theorem other_callback_superseded :
    ¬ (∀ (cfg : Config) (t : Table) (storage : Storage Nat) (env : SubmitEnv)
        (request : HttpRequest) (valid : ValidRequest),
      (atomicSystem cfg).Reachable KeyedTable.empty t → submitChecks cfg request = .ok valid →
        ∀ r ∈ t, ∀ url, lmsCallbackUrl r.xqueueHeader = .ok url → url ≠ valid.lmsCallbackUrl →
          r ∈ (submit cfg storage env request 0 t).2.table) := by
  intro h
  have hrow : ∀ r ∈ longTable.rows, r.retired = false ∧
      r.xqueueHeader = jobHeader (longCallback (py "1/problem")) (py "test-pull") := by
    decide +kernel
  have hne : Json.str (longCallback (py "1/problem")) ≠ .str (longCallback (py "2/problem")) := by
    rw [ne_eq, Json.str.injEq]
    decide +kernel
  have henc : PyStr.Encodable (longCallback (py "2/problem")) := by decide +kernel
  have hreach : (atomicSystem devSettings).Reachable KeyedTable.empty longTable :=
    reachable_tableAfter devSettings _ _
  have hmem : ∀ r ∈ longTable.rows, r ∈ (submit devSettings pathStorage
      ⟨clockAt 1, clockAt 1, true⟩ (jobFor (longCallback (py "2/problem"))) 0 longTable).2.table := by
    intro r hr
    have hheader : lmsCallbackUrl r.xqueueHeader = .ok (.str (longCallback (py "1/problem"))) := by
      rw [(hrow r hr).2]
      exact lmsCallbackUrl_jobHeader (by decide +kernel)
    exact h _ _ _ _ _ _ hreach (submitChecks_jobFor henc) r hr _ hheader hne
  simp only [KeyedTable.mem_rows] at hmem
  revert hmem
  decide +kernel

end Xqueue
