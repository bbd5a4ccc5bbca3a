import Xqueue.Operations
import Xqueue.Server

/-!
# Client — a login and the job that follows it

The client of `submission_queue/xqueue_client.py` posts two requests to the server, and other clients
post theirs before, between and after them.

* `XQueueClient`, `XQueueClient.login`, `XQueueClient.submitJob` : the client;
* `Server.reply` : what the server answers to a request;
* `loggedIn_of_run` : a login lasts, whatever the others do;
* `job_kept` : the job is accepted, and its row keeps what the client has sent.
-/

namespace Xqueue

open Library
open Library.System

/-! ## The client -/

/-- The server is left out: there is one. -/
structure XQueueClient where
  passwd : PyStr
  postUrl : PyStr
  encodable_passwd : PyStr.Encodable passwd
  encodable_postUrl : PyStr.Encodable postUrl

/-- The body that `submit_job` sends, for the time at which it runs. -/
def jobBody (runTime uniqueid : PyStr) : PyStr :=
  Json.dumps (.obj
    [(py "student_info", .str (Json.dumps (.obj
        [(py "anonymous_student_id", .str (py "connect_py_" ++ runTime ++ py "_" ++ uniqueid)),
          (py "submission_time", .str runTime)]))),
      (py "grader_payload", .str (Json.dumps (.obj
        [(py "grader", .str (py "finger_exercises/L2/hello_world/grade_hello.py"))]))),
      (py "student_response", .str (py "print 'hello world'\n"))])

namespace XQueueClient

/-- `login` -/
def login (client : XQueueClient) : HttpRequest :=
  loginRequest (py "lms") client.passwd encodable_lms client.encodable_passwd

/-- `submit_job` -/
def submitJob (client : XQueueClient) (runTime uniqueid queueName : PyStr) : HttpRequest :=
  Xqueue.submitJob client.postUrl queueName (jobBody runTime uniqueid) (Json.encodable_dumps _)

/-- The two requests, as the server gets them. -/
def logsIn (client : XQueueClient) (pid : Nat) (env : ServerEnv) : ServerEvent :=
  .request pid (py "xqueue/login/") env client.login

def submits (client : XQueueClient) (pid : Nat) (env : ServerEnv) (runTime uniqueid queueName : PyStr) :
    ServerEvent :=
  .request pid (py "xqueue/submit/") env (client.submitJob runTime uniqueid queueName)

end XQueueClient

/-! ## Logins last -/

variable {site : Site} {server opened : Server} {pid : Nat} {username : PyStr} {user : User}
  {es : List ServerEvent} {os : List Output} {e : ServerEvent} {cfg : Config} {t : Table}

/-- The session has been opened for the user as it is now. -/
structure LoggedIn (site : Site) (server : Server) (pid : Nat) (username : PyStr) (user : User) :
    Prop where
  session : server.sessions pid = some ⟨username, site.auth.sessionAuthHash user.password⟩
  account : server.users username = some user
  isActive : user.isActive = true

theorem LoggedIn.authenticated (h : LoggedIn site server pid username user) :
    userIsAuthenticated site.auth server.users (server.sessions pid) = true := by
  rw [h.session, userIsAuthenticated_some]
  exact ⟨user, h.account, h.isActive, rfl⟩

/-- The event does not log the client out or in under another name, and if it is `update_users`, the
account is not among those of the settings. -/
def ServerEvent.Leaves (site : Site) (pid : Nat) (username : PyStr) : ServerEvent → Prop
  | .request client path _ sent => client = pid → urlpatterns.lookup path ≠ some .logOut ∧
      (urlpatterns.lookup path = some .logIn → QueryDict.get? sent.post (py "username") = some username)
  | .updateUsers _ => ∀ entries, site.managed = some entries → username ∉ entries.map Prod.fst

theorem users_of_leaves (h : e.Leaves site pid username) :
    (server.step site e).1.users username = server.users username := by
  cases e with
  | request client path env request =>
      simp only [Server.step]
      split <;> rfl
  | updateUsers salts =>
      simp only [Server.step, updateUsers]
      cases hmanaged : site.managed with
      | none => rfl
      | some entries => exact setUsers_of_not_mem (h entries hmanaged)

theorem LoggedIn.step (h : LoggedIn site server pid username user) (hleaves : e.Leaves site pid username) :
    LoggedIn site (server.step site e).1 pid username user := by
  have husers : (server.step site e).1.users username = server.users username :=
    users_of_leaves hleaves
  refine ⟨?_, husers.trans h.account, h.isActive⟩
  rcases session_cases site server e pid with
    ⟨hsame, -⟩ | ⟨hout, -⟩ | ⟨username', password, user', hopens, hopened⟩
  · exact hsame.trans h.session
  · cases e with
    | updateUsers salts => exact hout.elim
    | request client path env request => exact absurd hout.2 (hleaves hout.1).1
  · -- a login under the same name is one of the same user
    rcases hopens with ⟨path, env, request, rfl, hview, hlogs⟩
    have hname := (hleaves rfl).2 hview
    rw [hlogs.hasUsername] at hname
    cases hname
    have huser := (authenticate_eq_some.1 hlogs.authenticates).1
    rw [h.account] at huser
    cases huser
    exact hopened

theorem loggedIn_of_run (h : LoggedIn site opened pid username user)
    (hrun : Run (serverSystem site) (fun _ e => e.Leaves site pid username) opened es os server) :
    LoggedIn site server pid username user := by
  refine hrun.invariant (I := fun _ server => LoggedIn site server pid username user) h ?_
  intro os u e v o hI hleaves hstep
  simp only [serverSystem, Option.some.injEq] at hstep
  have hnext := hI.step hleaves
  rwa [hstep] at hnext

theorem loggedIn_of_login (client : XQueueClient) (env : ServerEnv)
    (hauth : authenticate site.auth server.users (py "lms") client.passwd = some user) :
    LoggedIn site (server.step site (client.logsIn pid env)).1 pid (py "lms") user := by
  rcases authenticate_eq_some.1 hauth with ⟨huser, -, hactive⟩
  have hview : urlpatterns.lookup (py "xqueue/login/") = some .logIn := by decide
  have hlogs : LogsIn site.auth server.users (client.login.authenticatedBy site.auth server.users
      (server.sessions pid)) (py "lms") client.passwd user := ⟨rfl, rfl, rfl, hauth⟩
  refine ⟨?_, ?_, hactive⟩
  · simp only [XQueueClient.logsIn, Server.step, hview, serve, Function.update_self]
    exact session_of_logsIn hlogs
  · simp only [XQueueClient.logsIn, Server.step, hview]
    exact huser

/-! ## The job -/

/-- What the server answers. -/
def Server.reply (site : Site) (server : Server) (pid : Nat) (env : ServerEnv) (request : HttpRequest)
    (view : View) : Except PyExc HttpResponse :=
  (serve site server (server.sessions pid) env
    (request.authenticatedBy site.auth server.users (server.sessions pid)) view).result

/-- A request without files. -/
theorem submit_of_checks (storage : Storage Nat) (env : SubmitEnv) (t : Table) {request : HttpRequest}
    {valid : ValidRequest} {callback : PyStr} (hchecks : submitChecks cfg request = .ok valid)
    (hcallback : storedCallback cfg valid.lmsCallbackUrl = .ok callback) (hfiles : request.files = [])
    (hdb : env.dbAccepts = true) (hid : t.nextKey ≤ maxId) :
    let stored := storedTable request valid callback (py "{}") (py "{}") env.now t
    (submit cfg storage env request 0 t).2.table = stored ∧
      (submit cfg storage env request 0 t).2.result =
        .ok (.reply true (.str (PyStr.ofNat (getQueueLength cfg env.countTime valid.queueName stored)))) := by
  have hup : uploadFiles cfg storage 0 request valid.header valid.queueName =
      (0, .ok (py "{}", py "{}")) := by
    rw [uploadFiles, hfiles]
    rfl
  have hinsert : (env.dbAccepts && decide ((invalidatePriorSubmissions callback t).nextKey ≤ maxId)) =
      true := by
    rw [hdb, Bool.true_and, decide_eq_true_iff]
    exact hid
  simp only [submit, hchecks, hcallback, storeSubmission, hup, hinsert, if_true]
  exact ⟨rfl, rfl⟩

theorem storedCallback_postUrl (client : XQueueClient) :
    storedCallback cfg (.str client.postUrl) = .ok (client.postUrl.take 128) := by
  have henc : PyStr.Encodable (client.postUrl.take 128) :=
    fun c hc => client.encodable_postUrl c (List.mem_of_mem_take hc)
  simp [storedCallback, sliceCallback, charField, Json.pyStr, henc]

/-- The row has the job of the client. -/
structure HasJob (client : XQueueClient) (runTime uniqueid queueName : PyStr) (row : Submission) :
    Prop where
  callback : row.lmsCallbackUrl = client.postUrl.take 128
  queue : row.queueName = queueName
  header : row.xqueueHeader = jobHeader client.postUrl queueName
  body : row.xqueueBody = jobBody runTime uniqueid

theorem HasJob.of_origin {client : XQueueClient} {runTime uniqueid queueName : PyStr} {r s : Submission}
    (h : HasJob client runTime uniqueid queueName r) (horigin : s.origin = r.origin) :
    HasJob client runTime uniqueid queueName s where
  callback := (congrArg Origin.lmsCallbackUrl horigin).trans h.callback
  queue := (congrArg Origin.queueName horigin).trans h.queue
  header := (congrArg Origin.xqueueHeader horigin).trans h.header
  body := (congrArg Origin.xqueueBody horigin).trans h.body

/-- After the login of the client, whatever the other clients do: if the database takes its job, the
job is answered with the length of the queue, and its row stays stored through every later run, with
all that the client has sent. -/
theorem job_kept {client : XQueueClient} {loginEnv env : ServerEnv} {start final : Server}
    {es' : List ServerEvent} {os' : List Output} {runTime uniqueid queueName : PyStr}
    (hauth : authenticate site.auth start.users (py "lms") client.passwd = some user)
    (hbefore : Run (serverSystem site) (fun _ e => e.Leaves site pid (py "lms"))
      (start.step site (client.logsIn pid loginEnv)).1 es os server)
    (hqueue : site.cfg.hasQueue queueName = true) (hencodable : PyStr.Encodable queueName)
    (hdb : env.submit.dbAccepts = true) (hid : server.table.nextKey ≤ maxId)
    (hafter : Run (serverSystem site) Free
      (server.step site (client.submits pid env runTime uniqueid queueName)).1 es' os' final) :
    server.reply site pid env (client.submitJob runTime uniqueid queueName) .submit =
        .ok (.reply true (.str (PyStr.ofNat (getQueueLength site.cfg env.submit.countTime queueName
          (server.step site (client.submits pid env runTime uniqueid queueName)).1.table)))) ∧
      ∃ row ∈ final.table, row.id = server.table.nextKey ∧
        HasJob client runTime uniqueid queueName row := by
  let job := client.submitJob runTime uniqueid queueName
  -- the session still authenticates the client
  have hlogged := loggedIn_of_run (loggedIn_of_login client loginEnv hauth) hbefore
  have hrequest : job.authenticatedBy site.auth server.users (server.sessions pid) = job := by
    rw [HttpRequest.authenticatedBy, hlogged.authenticated]
    rfl
  have hchecks : submitChecks site.cfg job =
      .ok ⟨.str client.postUrl, queueName, jobHeader client.postUrl queueName, jobBody runTime uniqueid⟩ :=
    submitChecks_submitJob client.encodable_postUrl hencodable hqueue
  rcases submit_of_checks env.storage env.submit server.table hchecks (storedCallback_postUrl client) rfl
    hdb hid with ⟨htable, hresult⟩
  have hview : urlpatterns.lookup (py "xqueue/submit/") = some .submit := by decide
  have hstep : (server.step site (client.submits pid env runTime uniqueid queueName)).1.table =
      (submit site.cfg env.storage env.submit job 0 server.table).2.table := by
    simp only [XQueueClient.submits, Server.step, hview]
    exact congrArg (fun r => (serve site server (server.sessions pid) env r .submit).table) hrequest
  refine ⟨?_, ?_⟩
  · rw [hstep, htable, ← hresult]
    exact congrArg (fun r => (serve site server (server.sessions pid) env r .submit).result) hrequest
  · -- the row is inserted, and stays with its columns
    rcases run_of_server hafter with ⟨events, hevents⟩
    have hrow : ∃ row ∈ (server.step site (client.submits pid env runTime uniqueid queueName)).1.table,
        row.id = server.table.nextKey ∧ HasJob client runTime uniqueid queueName row := by
      rw [hstep, htable]
      exact ⟨_, mem_storedTable.2 (Or.inr rfl), rfl, ⟨rfl, rfl, rfl, rfl⟩⟩
    rcases hrow with ⟨row, hmem, hid, hjob⟩
    rcases origin_of_reachable hevents.reachable row hmem with ⟨s, hs, hsid, horigin⟩
    exact ⟨s, hs, hsid.trans hid, hjob.of_origin horigin⟩

theorem encodable_problem : PyStr.Encodable (py "/lms/1/problem") := by
  decide

def lmsClient : XQueueClient :=
  ⟨py "secret", py "/lms/1/problem", encodable_secret, encodable_problem⟩

/-- A grader asks for the length of the queue and pulls. -/
def graderPulls : List ServerEvent :=
  [.request 2 (py "xqueue/get_queuelen/") serverEnv (pullRequest (py "test-pull")),
    .request 2 (py "xqueue/get_submission/") serverEnv (pullRequest (py "test-pull"))]

/-- `newServer` after the login of the client. -/
def loggedInServer : Server :=
  (newServer.step devSite (lmsClient.logsIn 1 serverEnv)).1

theorem graderPulls_runs (server : Server) : ((serverSystem devSite).exec server graderPulls).isSome := by
  rfl

theorem run_graderPulls (server : Server) :
    let next := ((serverSystem devSite).exec server graderPulls).get (graderPulls_runs server)
    Run (serverSystem devSite) (fun _ e => e.Leaves devSite 1 (py "lms")) server graderPulls next.2
      next.1 := by
  have hleaves : ∀ e ∈ graderPulls, ∀ server : Server, e.Leaves devSite 1 (py "lms") := by
    intro e he _
    simp only [graderPulls, List.mem_cons, List.not_mem_nil, or_false] at he
    rcases he with rfl | rfl <;> exact fun hpid => absurd hpid (by decide)
  exact ((run_get (graderPulls_runs server)).of_forall_mem hleaves).mono fun server e h => h server

theorem authenticate_lmsClient : authenticate devSite.auth newServer.users (py "lms") lmsClient.passwd =
    some ⟨[], plainAuth.makePassword 1 (py "secret"), true⟩ :=
  rfl

/-- The job of `lmsClient`. -/
def lmsSubmits : ServerEvent :=
  lmsClient.submits 1 serverEnv (py "20260101100000") (py "herpderp") (py "test-pull")

/-- The grader pulls before the job, and after it. -/
theorem job_kept_graderPulls :
    let before := ((serverSystem devSite).exec loggedInServer graderPulls).get (graderPulls_runs _)
    let after := ((serverSystem devSite).exec (before.1.step devSite lmsSubmits).1 graderPulls).get
      (graderPulls_runs _)
    (∃ row ∈ after.1.table, row.id = before.1.table.nextKey ∧
      HasJob lmsClient (py "20260101100000") (py "herpderp") (py "test-pull") row) ∧
      after.1.table.rows.map (fun r => r.pullkey) = [py "eaaa7868ba5da1c0b5be0b5b4fc824e9"] := by
  have hkept : ∀ {before after : Server} {os os' : List Output},
      Run (serverSystem devSite) (fun _ e => e.Leaves devSite 1 (py "lms")) loggedInServer graderPulls os
        before →
      before.table.nextKey ≤ maxId →
      Run (serverSystem devSite) Free (before.step devSite lmsSubmits).1 graderPulls os' after →
        ∃ row ∈ after.table, row.id = before.table.nextKey ∧
          HasJob lmsClient (py "20260101100000") (py "herpderp") (py "test-pull") row :=
    fun hbefore hid hafter =>
      (job_kept authenticate_lmsClient hbefore (by decide) (by decide) rfl hid hafter).2
  exact ⟨hkept (run_graderPulls loggedInServer) (by decide +kernel) (run_get (graderPulls_runs _)),
    by decide +kernel⟩

end Xqueue
