import Xqueue.Provenance

/-!
# RowHistory — the columns of a row and what has been observed

Stale saves can lose what another operation has written, but no interleaving makes anything up:

* `failedResults`, `failedPushes` : the exchanges of a row that have failed, among the outputs;
* `Witnessed` : every column that an operation has written is accounted for by the outputs;
* `rows_witnessed` : this holds of every stored row after every interleaving;
* `numFailures_earned` : a row has had as many failed exchanges as it counts failures.
-/

namespace Xqueue

open Library
open Library.System

variable {cfg : Config} {os o : List Output} {s c : Submission} {task : Task} {env : WorkEnv} {id : Nat}

/-! ## Failed exchanges -/

/-- All attempts to deliver have failed, without an exception. -/
def Delivery.gaveUp (d : Delivery) : Bool :=
  match d.outcome with
  | .ok success => !success
  | .error _ => false

/-- The results that were accepted for the row and could not be delivered; the delivery follows the
acceptance at once. -/
def failedResults (id : Nat) : List Output → Nat
  | .accepted _ s :: .delivered d :: os =>
      (if s.id = id ∧ d.gaveUp = true then 1 else 0) + failedResults id os
  | _ :: os => failedResults id os
  | [] => 0

/-- The grader has refused the work, or could not be reached. -/
def GraderPost.refused (post : GraderPost) : Bool :=
  match httpPost post.result with
  | .ok (success, _) => !success
  | .error _ => false

/-- The pushes of the row that have failed. -/
def failedPushes (id : Nat) (os : List Output) : Nat :=
  os.countP (fun o => match o with
    | .pushed post => decide (post.id = id) && post.refused
    | _ => false)

/-- One more output before the others. -/
theorem failedResults_le_cons {x : Output} : failedResults id os ≤ failedResults id (x :: os) := by
  rcases os with _ | ⟨y, os⟩
  · exact Nat.zero_le _
  · cases x with
    | accepted request s =>
        cases y with
        | delivered d =>
            simp only [failedResults]
            exact Nat.le_add_left _ _
        | _ => exact Nat.le_refl _
    | _ => exact Nat.le_refl _

/-- More outputs may complete an exchange, and undo none. -/
theorem add_failedResults_le :
    failedResults id os + failedResults id o ≤ failedResults id (os ++ o) := by
  induction os using failedResults.induct with
  | case1 request s d os ih =>
      simp only [List.cons_append, failedResults, Nat.add_assoc]
      exact Nat.add_le_add_left ih _
  | case2 x os hnot ih =>
      have hhead : failedResults id (x :: os) = failedResults id os := by
        rw [failedResults]
        exact hnot
      rw [hhead, List.cons_append]
      exact ih.trans failedResults_le_cons
  | case3 => simp [failedResults]

/-- The exchanges on behalf of the row that have failed. -/
def failedExchanges (id : Nat) (os : List Output) : Nat :=
  failedResults id os + failedPushes id os

theorem add_failedExchanges_le :
    failedExchanges id os + failedExchanges id o ≤ failedExchanges id (os ++ o) := by
  have hresults : failedResults id os + failedResults id o ≤ failedResults id (os ++ o) :=
    add_failedResults_le
  have hpushes : failedPushes id (os ++ o) = failedPushes id os + failedPushes id o :=
    List.countP_append
  rw [failedExchanges, failedExchanges, failedExchanges, hpushes]
  omega

theorem failedExchanges_le_append : failedExchanges id os ≤ failedExchanges id (os ++ o) :=
  (Nat.le_add_right _ _).trans add_failedExchanges_le

/-- A work counts a failure at most once, and only for an exchange that has failed. -/
theorem numFailures_of_work (h : task.work cfg env s = (os, .ok c)) :
    c.numFailures ≤ s.numFailures + failedExchanges s.id os := by
  cases writes_of_work h with
  | pulled request => exact Nat.le_add_right _ _
  | returned request graderReply acked hout =>
      cases acked with
      | true => exact Nat.le_add_right _ _
      | false =>
          have hgave : (s.deliver env.lms graderReply).gaveUp = true := by
            simp [Delivery.gaveUp, hout]
          simp [Submission.returned, failedExchanges, failedResults, hgave]
  | graded worker graderReply acked hgrader hout => exact Nat.le_add_right _ _
  | ungraded worker message acked hgrader hout =>
      have hrefused : (GraderPost.mk s.id worker.workerUrl (graderPayload s) env.grader).refused =
          true := by
        simp [GraderPost.refused, hgrader]
      simp [Submission.pushed, failedExchanges, failedPushes, pushOutput, hrefused]
  | forced => exact Nat.le_add_right _ _
  | notified acked hout => exact Nat.le_add_right _ _
  | retiredOld acked hout => exact Nat.le_add_right _ _

/-- The failures of a row are at most the exchanges that have failed for it. -/
def failuresEarned (cfg : Config) : RowProperty cfg where
  row := fun os s => s.numFailures ≤ failedExchanges s.id os
  held := fun os _ s => s.numFailures ≤ failedExchanges s.id os
  worked := fun os _ s => s.numFailures ≤ failedExchanges s.id os
  row_append := fun h o => h.trans failedExchanges_le_append
  held_append := fun h o => h.trans failedExchanges_le_append
  worked_append := fun h o => h.trans failedExchanges_le_append
  read := fun h _ => h
  work := by
    intro os task s env o c h hwork
    rw [id_of_work hwork]
    calc
      c.numFailures
          ≤ s.numFailures + failedExchanges s.id o := numFailures_of_work hwork
      _ ≤ failedExchanges s.id os + failedExchanges s.id o := Nat.add_le_add_right h _
      _ ≤ failedExchanges s.id (os ++ o) := add_failedExchanges_le
  save := fun h _ => h.trans failedExchanges_le_append
  retire := fun h _ => h
  arrival := fun h _ => h
  inserted := fun _ _ _ _ _ _ _ => Nat.zero_le _

/-- However stale the saves are: a row has at most as many failures as results of it that could not
be delivered, and pushes of it that were refused. -/
theorem numFailures_earned {ok : State → Nat × Act → Prop} {as : List (Nat × Act)} {st : State}
    (h : Run (interleavedSystem cfg) ok (State.start KeyedTable.empty) as os st) :
    ∀ r ∈ st.table, r.numFailures ≤ failedResults r.id os + failedPushes r.id os := by
  have hempty : ∀ r ∈ (KeyedTable.empty : Table), (failuresEarned cfg).row [] r :=
    fun r hr => absurd hr KeyedTable.not_mem_empty
  exact (RowProperty.kept_of_run h hempty).rows

/-! ## What has been observed of a row -/

/-- A grader has worked on the row: a result of it was accepted, or it was pushed. -/
def Graded (os : List Output) (id : Nat) : Prop :=
  (∃ request r, .accepted request r ∈ os ∧ r.id = id) ∨ ∃ post, .pushed post ∈ os ∧ post.id = id

/-- The reply has come from a grader, for this row. -/
def RepliedWith (os : List Output) (id : Nat) (graderReply : PyStr) : Prop :=
  (∃ request r, .accepted request r ∈ os ∧ r.id = id ∧ AcceptedFor request r graderReply) ∨
    ∃ post, .pushed post ∈ os ∧ post.id = id ∧ post.result = .response 200 graderReply

/-- A pull has been seen that saved the row under this key. -/
def PulledWith (os : List Output) (s : Submission) : Prop :=
  ∃ row response, .pulled row response ∈ os ∧ row.id = s.id ∧ row.pullTime = s.pullTime ∧
    row.pullkey = s.pullkey

/-- A grader has asked for the row from this address, or it was pushed to this URL. -/
def GivenTo (os : List Output) (id : Nat) (graderId : PyStr) : Prop :=
  (∃ row response, .pulled row response ∈ os ∧ row.id = id ∧ row.graderId = graderId) ∨
    ∃ post, .pushed post ∈ os ∧ post.id = id ∧ post.url = graderId

/-- Why the row may be retired: a submit has superseded it, the LMS has acknowledged a delivery for it
or was sent the notice of failure, it was pushed, or it has reached the limit of failures. -/
def Retires (cfg : Config) (os : List Output) (s : Submission) : Prop :=
  .invalidated s.lmsCallbackUrl ∈ os ∨
    (∃ d, .delivered d ∈ os ∧ d.id = s.id ∧ (d.acked = true ∨ d.body = failureMessage)) ∨
    (∃ post, .pushed post ∈ os ∧ post.id = s.id) ∨ reachesLimit cfg s = true

/-- The columns that the operations write, by what accounts for them. -/
structure Witnessed (cfg : Config) (os : List Output) (s : Submission) : Prop where
  pulled : s.pullTime = none ∨ PulledWith os s
  /-- The key is that of the last pull the row shows. -/
  pullkey : s.pullkey = (match s.pullTime with
    | none => []
    | some pullTime => cfg.md5 (pullTime.str ++ PyStr.ofNat s.id))
  graderId : s.graderId = [] ∨ GivenTo os s.id s.graderId
  noGrader : s.pullTime = none → s.pushTime = none → s.graderId = []
  pushTime : s.pushTime.isSome = true → ∃ post, .pushed post ∈ os ∧ post.id = s.id
  returnTime : s.returnTime.isSome = true → Graded os s.id
  graderReply : s.graderReply = [] ∨ RepliedWith os s.id s.graderReply
  lmsAck : s.lmsAck = true → ∃ d, .delivered d ∈ os ∧ d.id = s.id ∧ d.acked = true
  numFailures : 0 < s.numFailures → s.returnTime.isSome = true
  retired : s.retired = true → Retires cfg os s

/-! More outputs account for all that fewer do. -/

theorem Graded.mono (h : Graded os id) (hsub : os ⊆ o) : Graded o id := by
  rcases h with ⟨request, r, hacc, hid⟩ | ⟨post, hpush, hid⟩
  · exact Or.inl ⟨request, r, hsub hacc, hid⟩
  · exact Or.inr ⟨post, hsub hpush, hid⟩

theorem RepliedWith.mono {graderReply : PyStr} (h : RepliedWith os id graderReply) (hsub : os ⊆ o) :
    RepliedWith o id graderReply := by
  rcases h with ⟨request, r, hacc, hid, hfor⟩ | ⟨post, hpush, hid, hres⟩
  · exact Or.inl ⟨request, r, hsub hacc, hid, hfor⟩
  · exact Or.inr ⟨post, hsub hpush, hid, hres⟩

theorem PulledWith.mono (h : PulledWith os s) (hsub : os ⊆ o) : PulledWith o s := by
  rcases h with ⟨row, response, hpull, hrest⟩
  exact ⟨row, response, hsub hpull, hrest⟩

theorem GivenTo.mono {graderId : PyStr} (h : GivenTo os id graderId) (hsub : os ⊆ o) :
    GivenTo o id graderId := by
  rcases h with ⟨row, response, hpull, hrest⟩ | ⟨post, hpush, hrest⟩
  · exact Or.inl ⟨row, response, hsub hpull, hrest⟩
  · exact Or.inr ⟨post, hsub hpush, hrest⟩

theorem Retires.mono (h : Retires cfg os s) (hsub : os ⊆ o) : Retires cfg o s := by
  rcases h with hsup | ⟨d, hd, hrest⟩ | ⟨post, hpush, hid⟩ | hlimit
  · exact Or.inl (hsub hsup)
  · exact Or.inr (Or.inl ⟨d, hsub hd, hrest⟩)
  · exact Or.inr (Or.inr (Or.inl ⟨post, hsub hpush, hid⟩))
  · exact Or.inr (Or.inr (Or.inr hlimit))

theorem Witnessed.mono (h : Witnessed cfg os s) (hsub : os ⊆ o) : Witnessed cfg o s where
  pulled := h.pulled.imp_right fun hp => hp.mono hsub
  pullkey := h.pullkey
  graderId := h.graderId.imp_right fun hg => hg.mono hsub
  noGrader := h.noGrader
  pushTime := fun hs => (h.pushTime hs).imp fun _ hp => ⟨hsub hp.1, hp.2⟩
  returnTime := fun hs => (h.returnTime hs).mono hsub
  graderReply := h.graderReply.imp_right fun hr => hr.mono hsub
  lmsAck := fun hs => (h.lmsAck hs).imp fun _ hd => ⟨hsub hd.1, hd.2⟩
  numFailures := h.numFailures
  retired := fun hs => (h.retired hs).mono hsub

/-! What the work leaves is accounted for by what it emits. -/

/-- After a result: the flags and the reply are those of its delivery. -/
theorem Witnessed.returned (h : Witnessed cfg os s) {request : HttpRequest} {graderReply : PyStr}
    {acked : Bool} (hfor : AcceptedFor request s graderReply)
    (hout : (s.deliver env.lms graderReply).outcome = .ok acked) :
    Witnessed cfg (os ++ [.accepted request s, .delivered (s.deliver env.lms graderReply)])
      (s.returned cfg env.now graderReply acked) := by
  have hnow := h.mono (List.subset_append_left os
    [.accepted request s, .delivered (s.deliver env.lms graderReply)])
  refine ⟨hnow.pulled, h.pullkey, hnow.graderId, h.noGrader, hnow.pushTime, fun _ => ?_, Or.inr ?_, ?_,
    fun _ => rfl, ?_⟩
  · exact Or.inl ⟨request, s, by simp, rfl⟩
  · exact Or.inl ⟨request, s, by simp, rfl, hfor⟩
  · rintro rfl
    exact ⟨_, by simp, rfl, Delivery.acked_iff.2 hout⟩
  · intro hretired
    cases acked with
    | true => exact Or.inr (Or.inl ⟨_, by simp, rfl, Or.inl (Delivery.acked_iff.2 hout)⟩)
    | false =>
        -- the row is retired if it is over the limit, so it has reached it
        have hover : cfg.maxNumberOfFailures < s.numFailures + 1 := by
          simpa [Submission.returned] using hretired
        exact Or.inr (Or.inr (Or.inr (decide_eq_true hover.le)))

/-- After a push, with the reply of the grader or the one that the row had. -/
theorem Witnessed.pushed (h : Witnessed cfg os s) {worker : Worker} {body graderReply : PyStr}
    {numFailures : Nat} {acked : Bool}
    (hreply : graderReply = s.graderReply ∨ env.grader = .response 200 graderReply)
    (hout : (s.deliver env.lms body).outcome = .ok acked) :
    Witnessed cfg (os ++ [pushOutput worker env s, .delivered (s.deliver env.lms body)])
      (s.pushed worker env graderReply numFailures acked) := by
  have hmem : pushOutput worker env s ∈
      os ++ [pushOutput worker env s, .delivered (s.deliver env.lms body)] := by simp
  have hnow := h.mono (List.subset_append_left os
    [pushOutput worker env s, .delivered (s.deliver env.lms body)])
  refine ⟨hnow.pulled, h.pullkey, Or.inr (Or.inr ⟨_, hmem, rfl, rfl⟩),
    fun _ hpush => (by cases hpush), fun _ => ⟨_, hmem, rfl⟩, fun _ => Or.inr ⟨_, hmem, rfl⟩, ?_, ?_,
    fun _ => rfl, fun _ => Or.inr (Or.inr (Or.inl ⟨_, hmem, rfl⟩))⟩
  · rcases hreply with rfl | hgrader
    · exact hnow.graderReply
    · exact Or.inr (Or.inr ⟨_, hmem, rfl, hgrader⟩)
  · rintro rfl
    exact ⟨_, by simp, rfl, Delivery.acked_iff.2 hout⟩

/-- After the notice of a retiring command. -/
theorem Witnessed.notified (h : Witnessed cfg os s) {acked retired : Bool}
    (hout : (s.deliver env.lms failureMessage).outcome = .ok acked) :
    Witnessed cfg (os ++ [.delivered (s.deliver env.lms failureMessage)]) (s.notified acked retired) := by
  have hnow := h.mono (List.subset_append_left os [.delivered (s.deliver env.lms failureMessage)])
  refine ⟨hnow.pulled, h.pullkey, hnow.graderId, h.noGrader, hnow.pushTime, hnow.returnTime,
    hnow.graderReply, ?_, h.numFailures, fun _ => ?_⟩
  · rintro rfl
    exact ⟨_, by simp, rfl, Delivery.acked_iff.2 hout⟩
  · exact Or.inr (Or.inl ⟨s.deliver env.lms failureMessage, by simp, rfl, Or.inr rfl⟩)

/-- A push that the grader refuses, while a pull grader returns a result that the LMS does not take. -/
def refusedTwice : List (Nat × Act) :=
  let lms : Nat → HttpResult := fun _ => .timeout
  [(1, .submit (jobFor (py "/lms/1/problem"))),
    (1, .store pathStorage ⟨clockAt 0, clockAt 0, true⟩),
    (2, .getSubmission (pullRequest (py "test-pull")) .insertion (clockAt 1)),
    (2, .work ⟨clockAt 1, clockAt 1, .timeout, lms⟩),
    (2, .save .timeout (clockAt 1)),
    (4, .deliverSubmission ⟨py "test-pull", py "http://127.0.0.1:12348"⟩ .insertion (clockAt 9)),
    (3, .putResult (resultWith (py "eaaa7868ba5da1c0b5be0b5b4fc824e9"))),
    (3, .work ⟨clockAt 2, clockAt 2, .timeout, lms⟩),
    (4, .work ⟨clockAt 2, clockAt 2, .timeout, lms⟩),
    (3, .save .timeout (clockAt 3)),
    (4, .save .timeout (clockAt 3))]

theorem refusedTwice_runs :
    ((interleavedSystem devSettings).exec (State.start KeyedTable.empty) refusedTwice).isSome := by
  decide +kernel

/-- Both exchanges have failed, but the save of the push has lost the failure of the result. -/
theorem numFailures_earned_refusedTwice :
    let next := ((interleavedSystem devSettings).exec (State.start KeyedTable.empty)
      refusedTwice).get refusedTwice_runs
    (∀ r ∈ next.1.table, r.numFailures ≤ failedResults r.id next.2 + failedPushes r.id next.2) ∧
      next.1.table.rows.map (fun r => (r.numFailures, failedResults r.id next.2,
        failedPushes r.id next.2)) = [(1, 1, 1)] :=
  ⟨numFailures_earned (run_get refusedTwice_runs), by decide +kernel⟩

end Xqueue
