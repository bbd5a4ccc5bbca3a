import Xqueue.Atomic
import Xqueue.Deployment

/-!
# Acknowledgement — one acknowledged delivery for a submission

Once the LMS has acknowledged a delivery for a row, nothing should be posted for the row any
more.  One operation after another:

* `ack_recorded` : in every run, `lms_ack` goes back to an acknowledged delivery;
* `single_ack_iff` : a run posts nothing after an acknowledgement exactly when no result is
  accepted for an acknowledged row (`Repeats`).
-/

namespace Xqueue

open Library
open Library.System

variable {cfg : Config} {t u : Table} {e : Event} {os : List Output} {es : List Event}

/-- The second output posts for a row that the first has got an acknowledgement for. -/
def PostsAgain (o o' : Output) : Prop :=
  ∃ d d', o = .delivered d ∧ o' = .delivered d' ∧ d.acked = true ∧ d'.id = d.id ∧ d'.posts ≠ []

/-- No POST for a row follows an acknowledged delivery for it. -/
def QuietAfterAck (os : List Output) : Prop :=
  os.Pairwise (fun o o' => ¬ PostsAgain o o')

/-- The output is an acknowledged delivery for the row. -/
def isAckFor (id : Nat) : Output → Bool
  | .delivered d => d.acked && d.id == id
  | _ => false

theorem isAckFor_iff {id : Nat} {o : Output} :
    isAckFor id o = true ↔ ∃ d, o = .delivered d ∧ d.acked = true ∧ d.id = id := by
  cases o <;> simp [isAckFor]

/-- In particular every row has at most one acknowledged delivery. -/
theorem count_ack_le_one (h : QuietAfterAck os) (id : Nat) : os.countP (isAckFor id) ≤ 1 := by
  rw [List.countP_eq_length_filter]
  have hpair : (os.filter (isAckFor id)).Pairwise (fun o o' => ¬ PostsAgain o o') := h.filter _
  have hack : ∀ o ∈ os.filter (isAckFor id), isAckFor id o = true :=
    fun o ho => (List.mem_filter.1 ho).2
  rcases hl : os.filter (isAckFor id) with _ | ⟨o, _ | ⟨o', rest⟩⟩
  · simp
  · simp
  · -- the second of two would be a POST after an acknowledgement
    rw [hl] at hpair hack
    rcases isAckFor_iff.1 (hack o (by simp)) with ⟨d, rfl, hd, hid⟩
    rcases isAckFor_iff.1 (hack o' (by simp)) with ⟨d', rfl, hd', hid'⟩
    refine absurd ?_ (List.rel_of_pairwise_cons hpair (by simp : Output.delivered d' ∈ _))
    exact ⟨d, d', rfl, rfl, hd, by rw [hid, hid'], Delivery.posts_ne_nil_of_acked hd'⟩

/-- A result passes the key check of a row that the LMS has acknowledged. -/
def Repeats (t : Table) : Event → Prop
  | .putResult _ request =>
      ∃ s graderReply, putResultChecks request t = .ok (s, graderReply) ∧ s.lmsAck = true
  | _ => False

/-! ## What holds in every run -/

/-- The header of a row names a callback, so a delivery for it posts. -/
def NamesCallback (s : Submission) : Prop :=
  ∃ url, lmsCallbackUrl s.xqueueHeader = .ok url

/-- Every row names a callback, and one that has `lms_ack` got an acknowledged delivery. -/
structure Recorded (os : List Output) (t : Table) : Prop where
  named : ∀ r ∈ t, NamesCallback r
  acked : ∀ r ∈ t, r.lmsAck = true → ∃ d, .delivered d ∈ os ∧ d.id = r.id ∧ d.acked = true

theorem recorded_moved {performs : Performs} {u' : Table} {o : List Output} (h : Recorded os u)
    (hm : Moved cfg performs u u' o) : Recorded (os ++ o) u' := by
  have hkeep : ∀ s ∈ u, s.lmsAck = true →
      ∃ d, .delivered d ∈ os ++ o ∧ d.id = s.id ∧ d.acked = true := by
    intro s hs hack
    rcases h.acked s hs hack with ⟨d, hd, hid, hd'⟩
    exact ⟨d, List.mem_append_left _ hd, hid, hd'⟩
  cases hm with
  | raised hs hp hwork => exact ⟨h.named, hkeep⟩
  | undone => exact ⟨h.named, hkeep⟩
  | @saved task env s c os' fetch now hs hp hwork =>
      constructor
      · intro r hr
        rcases (mem_save_worked hs hwork).1 hr with rfl | ⟨hr, -⟩
        · rcases h.named s hs with ⟨url, hurl⟩
          have horigin := congrArg Origin.xqueueHeader (origin_of_work hwork)
          exact ⟨url, by rw [show r.xqueueHeader = s.xqueueHeader from horigin, hurl]⟩
        · exact h.named r hr
      · intro r hr hack
        rcases (mem_save_worked hs hwork).1 hr with rfl | ⟨hr, -⟩
        · rw [id_of_work hwork]
          rcases delivered_of_lmsAck hwork hack with hack | ⟨d, hd, hid, hd'⟩
          · exact hkeep s hs hack
          · exact ⟨d, by simp [hd], hid, hd'⟩
        · exact hkeep r hr hack
  | superseded callback =>
      constructor
      · intro r hr
        rcases mem_invalidate.1 hr with ⟨s, hs, rfl⟩
        split <;> exact h.named s hs
      · intro r hr hack
        rcases mem_invalidate.1 hr with ⟨s, hs, rfl⟩
        split at hack <;> split <;> exact hkeep s hs hack
  | inserted s3Urls s3Keys now hchecks hcallback hurls =>
      constructor
      · intro r hr
        rcases KeyedTable.mem_insert.1 hr with hr | rfl
        · exact h.named r hr
        · exact ⟨_, lmsCallbackUrl_of_submitChecks hchecks⟩
      · intro r hr hack
        rcases KeyedTable.mem_insert.1 hr with hr | rfl
        · exact hkeep r hr hack
        · cases hack

theorem recorded_of_run {ok : Table → Event → Prop}
    (h : Run (atomicSystem cfg) ok KeyedTable.empty es os t) : Recorded os t :=
  moves_invariant (I := Recorded) h
    ⟨fun _ hr => absurd hr KeyedTable.not_mem_empty, fun _ hr => absurd hr KeyedTable.not_mem_empty⟩
    (fun _ _ _ _ _ _ _ hI hm => recorded_moved hI hm)

/-! ## Runs without repeated results -/

/-- Outputs without a delivery can always follow. -/
theorem QuietAfterAck.append_silent {o : List Output} (h : QuietAfterAck os)
    (ho : ∀ d, .delivered d ∉ o) : QuietAfterAck (os ++ o) := by
  have hno : ∀ x, ∀ y ∈ o, ¬ PostsAgain x y := by
    rintro x y hy ⟨-, d, -, rfl, -⟩
    exact ho d hy
  rw [QuietAfterAck, List.pairwise_append]
  exact ⟨h, List.pairwise_of_forall_mem_list fun x _ y hy => hno x y hy, fun x _ y hy => hno x y hy⟩

/-- The outputs of one work never post again. -/
theorem quietAfterAck_of_work {task : Task} {env : WorkEnv} {s : Submission} :
    QuietAfterAck (task.work cfg env s).1 := by
  have hnil : QuietAfterAck [] := List.Pairwise.nil
  rcases work_cases cfg env task s with hnone | ⟨before, d, assign, hbefore, heq, -⟩
  · exact hnil.append_silent hnone
  · rw [heq, QuietAfterAck, List.pairwise_append]
    refine ⟨hnil.append_silent hbefore, List.pairwise_singleton _ _, ?_⟩
    -- nothing has been delivered before
    rintro x hx y - ⟨d', -, rfl, -⟩
    exact hbefore d' hx

/-- The outputs of a work on a row without an acknowledged delivery can be appended. -/
theorem quietAfterAck_append (cfg : Config) (task : Task) (env : WorkEnv) {s : Submission}
    (h : QuietAfterAck os) (hnone : ∀ d, .delivered d ∈ os → d.id = s.id → d.acked = false) :
    QuietAfterAck (os ++ (task.work cfg env s).1) := by
  rw [QuietAfterAck, List.pairwise_append]
  refine ⟨h, quietAfterAck_of_work, ?_⟩
  rintro x hx y hy ⟨d, d', rfl, rfl, hack, hid, -⟩
  -- what the work delivers is for the row `s`
  cases mem_outputs_of_work hy with
  | delivered hsends =>
      rw [hnone d hx hid.symm] at hack
      cases hack

/-- Nothing is posted again, and acknowledged rows are recorded as such and retired. -/
structure Settled (os : List Output) (t : Table) : Prop where
  quiet : QuietAfterAck os
  acked : ∀ d, .delivered d ∈ os → d.acked = true →
    ∃ r ∈ t, r.id = d.id ∧ r.lmsAck = true ∧ r.retired = true

/-- Every operation works on rows that are not retired or not acknowledged. -/
theorem open_of_performs {task : Task} {env : WorkEnv} {s : Submission} (hok : ¬ Repeats t e)
    (hp : e.Performs cfg t task env s) : s.lmsAck = false ∨ s.retired = false := by
  rcases performs_cases hp with hopen | ⟨request, graderReply, rfl, rfl, hchecks⟩
  · exact Or.inr hopen
  · left
    cases hack : s.lmsAck with
    | false => rfl
    | true => exact absurd ⟨s, graderReply, hchecks, hack⟩ hok

theorem settled_moved {u' : Table} {o : List Output} (h : Settled os u) (hok : ¬ Repeats t e)
    (hm : Moved cfg (e.Performs cfg t) u u' o) : Settled (os ++ o) u' := by
  have hnone : ∀ {task : Task} {env : WorkEnv} {s : Submission}, s ∈ u →
      e.Performs cfg t task env s → ∀ d, .delivered d ∈ os → d.id = s.id → d.acked = false := by
    intro task env s hs hp d hd hid
    by_contra hack
    rcases h.acked d hd (by simpa using hack) with ⟨r, hr, hrid, hrack, hrret⟩
    -- the acknowledged row is the one that is worked on
    rw [KeyedTable.eq_of_key_eq hr hs (hrid.trans hid)] at hrack hrret
    rcases open_of_performs hok hp with hopen | hopen
    · rw [hrack] at hopen
      cases hopen
    · rw [hrret] at hopen
      cases hopen
  cases hm with
  | @raised task env s os' err hs hp hwork =>
      have hquiet := quietAfterAck_append cfg task env h.quiet (hnone hs hp)
      rw [hwork] at hquiet
      refine ⟨hquiet, ?_⟩
      intro d hd hack
      rcases List.mem_append.1 hd with hd | hd
      · exact h.acked d hd hack
      · rw [not_acked_of_raised hwork hd] at hack
        cases hack
  | undone => simpa using h
  | @saved task env s c os' fetch now hs hp hwork =>
      have hquiet := quietAfterAck_append cfg task env h.quiet (hnone hs hp)
      rw [hwork] at hquiet
      have hreplies : ∀ d, .delivered d ∉ task.replies fetch c := by
        intro d hd
        rcases pulled_of_mem_replies hd with ⟨response, heq⟩
        cases heq
      constructor
      · rw [← List.append_assoc]
        exact hquiet.append_silent hreplies
      · intro d hd hack
        -- delivered before, by this work, or with the reply (never)
        simp only [List.mem_append] at hd
        rcases hd with hd | hd | hd
        · have hid : d.id ≠ s.id := fun hid => by
            rw [hnone hs hp d hd hid] at hack
            cases hack
          rcases h.acked d hd hack with ⟨r, hr, hrid, hrack, hrret⟩
          exact ⟨r, (mem_save_worked hs hwork).2 (Or.inr ⟨hr, by rwa [hrid]⟩), hrid, hrack, hrret⟩
        · cases emits_of_work hwork hd with
          | delivered hsends =>
              refine ⟨c, (mem_save_worked hs hwork).2 (Or.inl rfl), id_of_work hwork, ?_,
                retired_of_acked hwork hd hack⟩
              rw [lmsAck_of_delivered hwork hd, hack]
        · exact absurd hd (hreplies d)
  | superseded callback =>
      constructor
      · exact h.quiet.append_silent (by simp)
      · intro d hd hack
        rcases h.acked d (by simpa using hd) hack with ⟨r, hr, hrid, hrack, hrret⟩
        exact ⟨r, mem_invalidate_of_not_isPrior hr (by simp [isPrior, hrret]), hrid, hrack, hrret⟩
  | inserted s3Urls s3Keys now hchecks hcallback hurls =>
      constructor
      · exact h.quiet.append_silent (by simp)
      · intro d hd hack
        rcases h.acked d (by simpa using hd) hack with ⟨r, hr, hrest⟩
        exact ⟨r, KeyedTable.mem_insert.2 (Or.inl hr), hrest⟩

theorem settled_of_run
    (h : Run (atomicSystem cfg) (fun t e => ¬ Repeats t e) KeyedTable.empty es os t) :
    Settled os t :=
  moves_invariant (I := Settled) h ⟨List.Pairwise.nil, by simp⟩
    (fun _ _ hok _ _ _ _ hI hm => settled_moved hI hok hm)

/-- A result accepted for an acknowledged row is posted to the LMS again. -/
theorem posted_of_repeats (cfg : Config) (h : Recorded os t) (hre : Repeats t e) :
    ∃ d d', .delivered d ∈ os ∧ .delivered d' ∈ (e.run cfg t).2 ∧
      PostsAgain (.delivered d) (.delivered d') := by
  cases e with
  | putResult env request =>
      rcases hre with ⟨s, graderReply, hchecks, hack⟩
      rcases putResultChecks_eq_ok.1 hchecks with ⟨-, -, hs, -⟩
      rcases h.acked s hs hack with ⟨d, hd, hid, hdack⟩
      rcases h.named s hs with ⟨url, hurl⟩
      refine ⟨d, s.deliver env.lms graderReply, hd, ?_, d, _, rfl, rfl, hdack, hid.symm, ?_⟩
      · rcases hwork : s.putResult cfg env request graderReply with ⟨o, err | c⟩ <;>
          simp only [Event.run, Ended.observed, putResult, hchecks, hwork, Work.finish]
        · have : o = (s.putResult cfg env request graderReply).1 := by rw [hwork]
          simp [this, Submission.putResult, Delivery.andAssign, Submission.deliver]
        · have : o = (s.putResult cfg env request graderReply).1 := by rw [hwork]
          simp [this, Submission.putResult, Delivery.andAssign, Submission.deliver]
      · have hposts : 0 < (s.deliver env.lms graderReply).posts.length := (length_posts hurl).1
        exact List.length_pos_iff.1 hposts
  | _ => exact hre.elim

/-- A run from the empty table posts nothing for a row after an acknowledged delivery for it,
and so acknowledges each row at most once, exactly when no step of it accepts a result for a
row that is acknowledged already. -/
theorem single_ack_iff (cfg : Config) (es : List Event) (os : List Output) (t : Table)
    (h : Run (atomicSystem cfg) Free KeyedTable.empty es os t) :
    (QuietAfterAck os ↔ Run (atomicSystem cfg) (fun t e => ¬ Repeats t e) KeyedTable.empty es os t) ∧
      (QuietAfterAck os → ∀ id, os.countP (isAckFor id) ≤ 1) := by
  refine ⟨⟨fun hquiet => ?_, fun hok => (settled_of_run hok).quiet⟩, count_ack_le_one⟩
  by_contra hbad
  -- the first step that repeats a result posts again
  rcases h.exists_first_failure hbad with
    ⟨es₁, e, es₂, os₁, o, os₂, m, n, rfl, rfl, hrun, hre, hstep, -⟩
  simp only [atomicSystem, Option.some.injEq] at hstep
  rcases posted_of_repeats cfg (recorded_of_run hrun) (not_not.1 hre) with
    ⟨d, d', hd, hd', hagain⟩
  rw [hstep] at hd'
  rw [QuietAfterAck, List.pairwise_append, List.pairwise_append] at hquiet
  exact hquiet.1.2.2 _ hd _ hd' hagain

/-- A grader sends its result twice, and the LMS acknowledges both. -/
def repeatedResult : List Event :=
  let result : Event := .putResult ⟨clockAt 2, clockAt 2, .timeout, fun _ => .response 200 []⟩
    (resultWith (py "eaaa7868ba5da1c0b5be0b5b4fc824e9"))
  [.submit pathStorage ⟨clockAt 0, clockAt 0, true⟩ (jobFor (py "/lms/1/problem")),
    .getSubmission ⟨.insertion, clockAt 1, clockAt 1, .timeout⟩ (pullRequest (py "test-pull")),
    result, result]

theorem repeatedResult_runs :
    ((atomicSystem devSettings).exec KeyedTable.empty repeatedResult).isSome := by
  decide +kernel

/-- One submission gets two acknowledged deliveries. -/
theorem acknowledged_twice :
    ¬ (∀ es os t, Run (atomicSystem devSettings) Free KeyedTable.empty es os t →
      ∀ id, os.countP (isAckFor id) ≤ 1) := by
  intro h
  have := h _ _ _ (run_get repeatedResult_runs) 1
  revert this
  decide +kernel

/-- The run is one that repeats a result. -/
theorem single_ack_iff_repeatedResult :
    ¬ Run (atomicSystem devSettings) (fun t e => ¬ Repeats t e) KeyedTable.empty repeatedResult
      (((atomicSystem devSettings).exec KeyedTable.empty repeatedResult).get repeatedResult_runs).2
      (((atomicSystem devSettings).exec KeyedTable.empty repeatedResult).get repeatedResult_runs).1 := by
  intro hok
  have hiff := single_ack_iff devSettings _ _ _ (run_get repeatedResult_runs)
  have := hiff.2 (hiff.1.2 hok) 1
  revert this
  decide +kernel

end Xqueue
