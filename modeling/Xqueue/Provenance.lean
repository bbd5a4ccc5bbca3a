import Xqueue.Deployment
import Xqueue.Interleaved

/-!
# Provenance — where a delivery comes from

Under every interleaving, what is posted to the LMS on behalf of a row goes back to the
submit request that inserted the row, and to a result or a push of that row:

* `Traced` : a stored row, or an instance in flight, has the request columns of an inserted row;
* `GoodDelivery` : header, destination and body of a delivery are the row's own;
* `deliveries_traced` : every row is traced and every delivery is good, in every run.
-/

namespace Xqueue

open Library
open Library.System

variable {cfg : Config} {os : List Output}

/-- A submit request has inserted the row `row`: header and body are the request's own. -/
def InsertedBy (os : List Output) (request : HttpRequest) (row : Submission) : Prop :=
  .inserted request row ∈ os ∧
    QueryDict.get? request.post (py "xqueue_header") = some row.xqueueHeader ∧
    QueryDict.get? request.post (py "xqueue_body") = some row.xqueueBody

/-- The columns that a submit request sets are those of the row inserted under the same id. -/
def Traced (os : List Output) (s : Submission) : Prop :=
  ∃ request row, InsertedBy os request row ∧ row.id = s.id ∧ row.origin = s.origin

theorem InsertedBy.append {request : HttpRequest} {row : Submission} (h : InsertedBy os request row)
    (o : List Output) : InsertedBy (os ++ o) request row :=
  ⟨List.mem_append_left _ h.1, h.2⟩

theorem Traced.append {s : Submission} (h : Traced os s) (o : List Output) : Traced (os ++ o) s := by
  rcases h with ⟨request, row, hins, hrest⟩
  exact ⟨request, row, hins.append o, hrest⟩

/-- Every row is traced; an instance that a result is for meets the key check of its request. -/
def traced (cfg : Config) : RowProperty cfg where
  row := fun os s => Traced os s
  held := fun os task s => Traced os s ∧ task.MayRead cfg s
  worked := fun os _ s => Traced os s
  row_append := fun h o => h.append o
  held_append := fun h o => ⟨h.1.append o, h.2⟩
  worked_append := fun h o => h.append o
  read := fun h hread => ⟨h, hread⟩
  work := by
    rintro os task s env o c ⟨⟨request, row, hins, hid, horigin⟩, -⟩ hwork
    exact ⟨request, row, hins.append o, hid.trans (id_of_work hwork).symm,
      horigin.trans (origin_of_work hwork).symm⟩
  save := fun h _ => h.append _
  retire := fun h _ => h
  arrival := fun h _ => h
  inserted := by
    intro os request valid callback hchecks hcallback s3Urls s3Keys now id _
    rcases submitChecks_eq_ok.1 hchecks with ⟨-, -, hvalid, -⟩
    rcases isValidRequest_eq_some hvalid with ⟨hheader, hbody, -⟩
    exact ⟨request, _, ⟨by simp, hheader, hbody⟩, rfl, rfl⟩

/-! ## Deliveries -/

/-- Where the body of a delivery for the row comes from: the fixed failure message, a result
that passed the row's key check, or the 200 reply to a push of the row. -/
inductive BodyFrom (os : List Output) (row : Submission) : PyStr → Prop
  | failure : BodyFrom os row failureMessage
  | result {request : HttpRequest} {s : Submission} {graderReply : PyStr} :
      .accepted request s ∈ os → s.id = row.id → AcceptedFor request s graderReply →
        BodyFrom os row graderReply
  | grade {post : GraderPost} {graderReply : PyStr} :
      .pushed post ∈ os → post.id = row.id → post.payload = graderPayload row →
      post.result = .response 200 graderReply → BodyFrom os row graderReply

/-- A delivery on behalf of the row that a request inserted: every POST of it carries the
header of that request, goes to the callback in that header, and has a body that is the row's. -/
def GoodDelivery (os : List Output) (d : Delivery) : Prop :=
  ∃ request row, InsertedBy os request row ∧ row.id = d.id ∧
    ∀ p ∈ d.posts, p.xqueueHeader = row.xqueueHeader ∧
      lmsCallbackUrl row.xqueueHeader = .ok p.url ∧ BodyFrom os row p.xqueueBody

theorem BodyFrom.append {row : Submission} {body : PyStr} (h : BodyFrom os row body)
    (o : List Output) : BodyFrom (os ++ o) row body := by
  cases h with
  | failure => exact BodyFrom.failure
  | result hacc hid hfor => exact BodyFrom.result (List.mem_append_left _ hacc) hid hfor
  | grade hpush hid hpayload hres =>
      exact BodyFrom.grade (List.mem_append_left _ hpush) hid hpayload hres

theorem GoodDelivery.append {d : Delivery} (h : GoodDelivery os d) (o : List Output) :
    GoodDelivery (os ++ o) d := by
  rcases h with ⟨request, row, hins, hid, hposts⟩
  refine ⟨request, row, hins.append o, hid, ?_⟩
  intro p hp
  rcases hposts p hp with ⟨hheader, hurl, hbody⟩
  exact ⟨hheader, hurl, hbody.append o⟩

/-- The push payload is made from columns that no operation writes. -/
theorem graderPayload_eq {r s : Submission} (h : r.origin = s.origin) :
    graderPayload r = graderPayload s := by
  have hbody : r.xqueueBody = s.xqueueBody := congrArg Origin.xqueueBody h
  have hurls : r.s3Urls = s.s3Urls := congrArg Origin.s3Urls h
  rw [graderPayload, graderPayload, hbody, hurls]

/-- The body that a work sends comes from the row it works on. -/
theorem bodyFrom_of_sends {task : Task} {env : WorkEnv} {s row : Submission} {body : PyStr}
    (hid : row.id = s.id) (horigin : row.origin = s.origin) (hread : task.MayRead cfg s)
    (h : task.Sends env body) : BodyFrom (os ++ (task.work cfg env s).1) row body := by
  cases h with
  | result request graderReply =>
      have hmem : Output.accepted request s ∈ ((Task.put request body).work cfg env s).1 := by
        simp [Task.work, Submission.putResult]
      exact BodyFrom.result (List.mem_append_right _ hmem) hid.symm hread
  | grade worker graderReply hgrader =>
      have hmem : pushOutput worker env s ∈ ((Task.push worker).work cfg env s).1 := by
        simp [Task.work, Worker.work, hgrader, httpPost, pushOutput]
      exact BodyFrom.grade (List.mem_append_right _ hmem) hid.symm
        (graderPayload_eq horigin).symm hgrader
  | failedPush worker => exact BodyFrom.failure
  | failed force => exact BodyFrom.failure
  | old => exact BodyFrom.failure

theorem goodDelivery_of_work {task : Task} {env : WorkEnv} {s : Submission} {d : Delivery}
    (hs : (traced cfg).held os task s) (hd : .delivered d ∈ (task.work cfg env s).1) :
    GoodDelivery (os ++ (task.work cfg env s).1) d := by
  rcases hs with ⟨⟨request, row, hins, hid, horigin⟩, hread⟩
  have hheader : row.xqueueHeader = s.xqueueHeader := congrArg Origin.xqueueHeader horigin
  cases mem_outputs_of_work hd with
  | @delivered _ body hsends =>
      refine ⟨request, row, hins.append _, hid, ?_⟩
      intro p hp
      -- the POSTs carry the header of the instance, which is that of the inserted row
      rcases mem_posts hp with ⟨hurl, hph, hpb⟩
      refine ⟨hph.trans hheader.symm, by rw [hheader]; exact hurl, ?_⟩
      rw [hpb]
      exact bodyFrom_of_sends hid horigin hread hsends

/-- A step of the system delivers only in the work of a process, on the instance it holds. -/
theorem work_of_delivered {t t' : Table} {p p' : Proc} {d : Delivery} (hact : Acted cfg t p t' p' os)
    (hd : .delivered d ∈ os) :
    ∃ task env s rest, p = .working task s rest ∧ os = (task.work cfg env s).1 := by
  cases hact with
  | quiet _ => simp at hd
  | invalidated _ _ => simp at hd
  | notStored => simp at hd
  | stored _ _ _ => simp at hd
  | read _ _ _ => simp at hd
  | deleted _ => simp at hd
  | @raised task s rest env os e hwork => exact ⟨task, env, s, rest, rfl, by rw [hwork]⟩
  | @worked task s c rest env os hwork => exact ⟨task, env, s, rest, rfl, by rw [hwork]⟩
  | @saved task c rest fetch now =>
      rcases finish_cases cfg task fetch now c t with ⟨-, heq⟩ | heq
      · simp [heq] at hd
      · rw [heq] at hd
        rcases pulled_of_mem_replies hd with ⟨response, hne⟩
        cases hne

/-! ## One insertion for each id -/

/-- Rows are inserted under distinct ids, below the next one to be given out. -/
structure FreshIds (os : List Output) (t : Table) : Prop where
  below : ∀ request row, .inserted request row ∈ os → row.id < t.nextKey
  distinct : os.Pairwise (fun o o' => ∀ request row request' row',
    o = .inserted request row → o' = .inserted request' row' → row.id ≠ row'.id)

theorem freshIds_of_no_insert {t t' : Table} {o : List Output} (h : FreshIds os t)
    (hnext : t.nextKey ≤ t'.nextKey) (hno : ∀ x ∈ o, ∀ request row, x ≠ .inserted request row) :
    FreshIds (os ++ o) t' := by
  constructor
  · intro request row hmem
    rcases List.mem_append.1 hmem with hmem | hmem
    · exact Nat.lt_of_lt_of_le (h.below request row hmem) hnext
    · exact absurd rfl (hno _ hmem request row)
  · rw [List.pairwise_append]
    refine ⟨h.distinct, List.pairwise_of_forall_mem_list ?_, ?_⟩
    · intro x hx _ _ request row _ _ heq _
      exact absurd heq (hno x hx request row)
    · intro _ _ y hy _ _ request' row' _ heq
      exact absurd heq (hno y hy request' row')

theorem freshIds_acted {t t' : Table} {p p' : Proc} {o : List Output} (h : FreshIds os t)
    (hact : Acted cfg t p t' p' o) : FreshIds (os ++ o) t' := by
  cases hact with
  | quiet _ => exact freshIds_of_no_insert h (Nat.le_refl _) (by simp)
  | invalidated _ _ => exact freshIds_of_no_insert h (Nat.le_refl _) (by simp)
  | notStored => exact freshIds_of_no_insert h (Nat.le_refl _) (by simp)
  | read _ _ _ => exact freshIds_of_no_insert h (Nat.le_refl _) (by simp)
  | deleted _ => exact freshIds_of_no_insert h (Nat.le_refl _) (by simp)
  | stored s3Urls s3Keys now _ =>
      constructor
      · intro request row hmem
        -- inserted before, or now under the next id
        rcases List.mem_append.1 hmem with hmem | hmem
        · exact Nat.lt_succ_of_lt (h.below request row hmem)
        · simp only [List.mem_singleton, Output.inserted.injEq] at hmem
          rw [hmem.2]
          exact Nat.lt_succ_self _
      · rw [List.pairwise_append]
        refine ⟨h.distinct, List.pairwise_singleton _ _, ?_⟩
        rintro x hx y hy request row request' row' rfl rfl
        simp only [List.mem_singleton, Output.inserted.injEq] at hy
        rw [hy.2]
        exact Nat.ne_of_lt (h.below request row hx)
  | @raised task s rest env os' e hwork =>
      refine freshIds_of_no_insert h (Nat.le_refl _) ?_
      rintro x hx request row rfl
      cases emits_of_work hwork hx
  | @worked task s c rest env os' hwork =>
      refine freshIds_of_no_insert h (Nat.le_refl _) ?_
      rintro x hx request row rfl
      cases emits_of_work hwork hx
  | @saved task c rest fetch now =>
      rcases finish_cases cfg task fetch now c t with ⟨-, heq⟩ | heq
      · rw [heq]
        exact freshIds_of_no_insert h (Nat.le_refl _) (by simp)
      · rw [heq]
        refine freshIds_of_no_insert h KeyedTable.le_nextKey_put ?_
        rintro x hx request row rfl
        rcases pulled_of_mem_replies hx with ⟨response, hne⟩
        cases hne

/-! ## Every run -/

/-- Under every interleaving, every stored row has the columns of the one row inserted under
its id, and every delivery is made on behalf of the row it names. -/
theorem deliveries_traced {as : List (Nat × Act)} {st : State}
    (h : Run (interleavedSystem cfg) Free (State.start KeyedTable.empty) as os st) :
    (∀ r ∈ st.table, Traced os r) ∧
      os.Pairwise (fun o o' => ∀ request row request' row',
        o = .inserted request row → o' = .inserted request' row' → row.id ≠ row'.id) ∧
      ∀ d, .delivered d ∈ os → GoodDelivery os d := by
  have hI : (traced cfg).Kept os st ∧ FreshIds os st.table ∧
      ∀ d, .delivered d ∈ os → GoodDelivery os d := by
    refine h.invariant (I := fun os st => (traced cfg).Kept os st ∧ FreshIds os st.table ∧
      ∀ d, .delivered d ∈ os → GoodDelivery os d) ?_ ?_
    · exact ⟨RowProperty.kept_start (fun r hr => absurd hr KeyedTable.not_mem_empty),
        ⟨by simp, List.Pairwise.nil⟩, by simp⟩
    · rintro os st ⟨pid, a⟩ st' o ⟨hkept, hfresh, hgood⟩ - hstep
      rcases acted_of_step hstep with ⟨t, p, hact, rfl⟩
      refine ⟨hkept.step hstep, freshIds_acted hfresh hact, ?_⟩
      intro d hd
      rcases List.mem_append.1 hd with hd | hd
      · exact (hgood d hd).append o
      · rcases work_of_delivered hact hd with ⟨task, env, s, rest, hp, rfl⟩
        have hheld := hkept.procs pid
        rw [hp] at hheld
        exact goodDelivery_of_work hheld.1 hd
  exact ⟨hI.1.rows, hI.2.1.distinct, hI.2.2⟩

/-- A submission is stored and pulled, and its result delivered while a command that has read
the row notifies the LMS of a failure. -/
def resultAndNotice : List (Nat × Act) :=
  [(1, .submit (jobFor (py "/lms/1/problem"))),
    (1, .store pathStorage ⟨clockAt 0, clockAt 0, true⟩),
    (2, .getSubmission (pullRequest (py "test-pull")) .insertion (clockAt 1)),
    (2, .work ⟨clockAt 1, clockAt 1, .timeout, fun _ => .timeout⟩),
    (2, .save .timeout (clockAt 1)),
    (4, .retireOldSubmissions (py "test-pull") none .insertion),
    (3, .putResult (resultWith (py "eaaa7868ba5da1c0b5be0b5b4fc824e9"))),
    (3, .work ⟨clockAt 2, clockAt 2, .timeout, fun _ => .response 200 []⟩),
    (4, .work ⟨clockAt 2, clockAt 2, .timeout, fun _ => .response 500 []⟩)]

theorem resultAndNotice_runs :
    ((interleavedSystem devSettings).exec (State.start KeyedTable.empty) resultAndNotice).isSome := by
  decide +kernel

/-- The bodies of the POSTs to the LMS: the result once, the failure message five times. -/
theorem deliveries_traced_resultAndNotice :
    let run := ((interleavedSystem devSettings).exec (State.start KeyedTable.empty)
      resultAndNotice).get resultAndNotice_runs
    (∀ d, .delivered d ∈ run.2 → GoodDelivery run.2 d) ∧
      (run.2.filterMap (fun o => match o with
        | .delivered d => some (d.id, decide (d.body = failureMessage), d.posts.length)
        | _ => none)) = [(1, false, 1), (1, true, 5)] :=
  ⟨(deliveries_traced (run_get resultAndNotice_runs)).2.2, by decide +kernel⟩

end Xqueue
