import Mathlib.Data.List.DropRight
import Xqueue.Accounts
import Xqueue.Deployment

/-!
# Server — the views behind their URLs

The server keeps the table, the users and the session of every client.  A request is dispatched by
its URL and sees whether its session is authenticated.

* `urlpatterns`, `serve`, `serverSystem` : `submission_queue/urls.py` and the middleware;
* `run_of_server` : what the server does to the table is a run of the events of clients that have
  logged in;
* `effects_need_login` : behind every effect there is a login with a password that is still good;
* `logins_after_update` : `update_users` ends the sessions of the accounts that it manages.
-/

namespace Xqueue

open Library
open Library.System

/-! ## Dispatch -/

inductive View where
  | logIn
  | logOut
  | status
  | submit
  | getQueuelen
  | getSubmission
  | putResult
  deriving DecidableEq, Repr

/-- The patterns of the application, included under `xqueue/`. -/
def urlpatterns : List (PyStr × View) :=
  [(py "xqueue/login/", .logIn), (py "xqueue/logout/", .logOut), (py "xqueue/status/", .status),
    (py "xqueue/submit/", .submit), (py "xqueue/get_queuelen/", .getQueuelen),
    (py "xqueue/get_submission/", .getSubmission), (py "xqueue/put_result/", .putResult)]

/-- What the outside answers to a request, whichever view serves it. -/
structure ServerEnv where
  storage : Storage Nat
  submit : SubmitEnv
  now : DateTime
  pull : PullEnv
  put : WorkEnv

/-- The settings, and the users that `update_users` manages, under distinct names. -/
structure Site where
  cfg : Config
  auth : Auth
  managed : Option (List (PyStr × PyStr))
  nodup_managed : ∀ entries, managed = some entries → (entries.map Prod.fst).Nodup

structure Server where
  table : Table
  users : Users
  sessions : Nat → Option Session

/-- What a view leaves. -/
structure ViewResult where
  table : Table
  outputs : List Output
  session : Option Session
  result : Except PyExc HttpResponse

/-- A view that looks at the session but does not change it. -/
def Ended.inSession (ended : Ended HttpResponse) (session : Option Session) : ViewResult :=
  ⟨ended.table, ended.outputs, session, ended.result⟩

def serve (site : Site) (server : Server) (session : Option Session) (env : ServerEnv)
    (request : HttpRequest) : View → ViewResult
  | .logIn =>
      let (session, result) := logIn site.auth server.users session request
      ⟨server.table, [], session, result⟩
  | .logOut => ⟨server.table, [], logOut.1, logOut.2⟩
  | .status => ⟨server.table, [], session, .ok status⟩
  | .submit => (submit site.cfg env.storage env.submit request 0 server.table).2.inSession session
  | .getQueuelen => ⟨server.table, [], session, .ok (getQueuelen site.cfg env.now request server.table)⟩
  | .getSubmission => (getSubmission site.cfg env.pull request server.table).inSession session
  | .putResult => (putResult site.cfg env.put request server.table).inSession session

/-- The request as a view sees it. -/
def HttpRequest.authenticatedBy (auth : Auth) (users : Users) (session : Option Session)
    (request : HttpRequest) : HttpRequest :=
  { request with isAuthenticated := userIsAuthenticated auth users session }

inductive ServerEvent where
  | request (client : Nat) (path : PyStr) (env : ServerEnv) (request : HttpRequest)
  | updateUsers (salts : PyStr → Nat)

def Server.step (site : Site) (server : Server) : ServerEvent → Server × List Output
  | .request client path env request =>
      match urlpatterns.lookup path with
      -- not found
      | none => (server, [])
      | some view =>
          let session := server.sessions client
          let served := serve site server session env
            (request.authenticatedBy site.auth server.users session) view
          ({ server with
              table := served.table, sessions := Function.update server.sessions client served.session },
            served.outputs)
  | .updateUsers salts =>
      ({ server with users := (updateUsers site.auth salts site.managed server.users).1 }, [])

def serverSystem (site : Site) : System Server ServerEvent Output where
  step := fun server e => some (server.step site e)

variable {site : Site} {server server' start : Server} {client : Nat} {path : PyStr} {env : ServerEnv}
  {request : HttpRequest} {session : Option Session} {e : ServerEvent} {es : List ServerEvent}
  {os o : List Output} {t : Table}

/-! ## The run of the table -/

/-- The event is a request of a client that has logged in. -/
def Event.IsRequest : Event → Prop
  | .submit _ _ request => request.isAuthenticated = true
  | .getSubmission _ request => request.isAuthenticated = true
  | .putResult _ request => request.isAuthenticated = true
  | _ => False

/-- The view does nothing, or what it does is an event of a request that is authenticated. -/
theorem serve_cases (site : Site) (server : Server) (session : Option Session) (env : ServerEnv)
    (request : HttpRequest) (view : View) :
    let served := serve site server session env request view
    (served.table = server.table ∧ served.outputs = []) ∨
      request.isAuthenticated = true ∧ served.session = session ∧ ∃ e : Event, e.IsRequest ∧
        e.run site.cfg server.table = (served.table, served.outputs) := by
  intro served
  by_cases hauth : request.isAuthenticated = true
  · cases view with
    | submit => exact Or.inr ⟨hauth, rfl, .submit env.storage env.submit request, hauth, rfl⟩
    | getSubmission => exact Or.inr ⟨hauth, rfl, .getSubmission env.pull request, hauth, rfl⟩
    | putResult => exact Or.inr ⟨hauth, rfl, .putResult env.put request, hauth, rfl⟩
    | _ => exact Or.inl ⟨rfl, rfl⟩
  · -- the views that need a login redirect to it
    left
    cases view with
    | submit => simp [served, serve, Ended.inSession, submit, submitChecks, hauth]
    | getSubmission =>
        simp [served, serve, Ended.inSession, getSubmission, getSubmissionChecks, queueChecks, hauth]
    | putResult => simp [served, serve, Ended.inSession, putResult, putResultChecks, hauth]
    | _ => exact ⟨rfl, rfl⟩

/-- A step of the server is no event of the table, or one of a session that is authenticated. -/
theorem step_cases (site : Site) (server : Server) (e : ServerEvent) :
    ((server.step site e).1.table = server.table ∧ (server.step site e).2 = []) ∨
      ∃ client path env request, e = .request client path env request ∧
        userIsAuthenticated site.auth server.users (server.sessions client) = true ∧
        ∃ event : Event, event.IsRequest ∧
          event.run site.cfg server.table = ((server.step site e).1.table, (server.step site e).2) := by
  cases e with
  | updateUsers salts => exact Or.inl ⟨rfl, rfl⟩
  | request client path env request =>
      simp only [Server.step]
      cases hview : urlpatterns.lookup path with
      | none => exact Or.inl ⟨rfl, rfl⟩
      | some view =>
          rcases serve_cases site server (server.sessions client) env
            (request.authenticatedBy site.auth server.users (server.sessions client)) view with
            hquiet | ⟨hauth, -, hevent⟩
          · exact Or.inl hquiet
          · exact Or.inr ⟨client, path, env, request, rfl, hauth, hevent⟩

/-- Every run of the server is, on the table, a run of events that are requests of clients that have
logged in. -/
theorem run_of_server (h : Run (serverSystem site) Free server es os server') :
    ∃ events, Run (atomicSystem site.cfg) (fun _ e => e.IsRequest) server.table events os server'.table := by
  induction h with
  | nil => exact ⟨[], Run.nil _⟩
  | @snoc m n as os o e hrun _ hs ih =>
      rcases ih with ⟨events, hevents⟩
      simp only [serverSystem, Option.some.injEq] at hs
      rcases step_cases site m e with
        ⟨htable, houtputs⟩ | ⟨client, path, env, request, -, -, event, hreq, hstep⟩
      · rw [hs] at htable houtputs
        refine ⟨events, ?_⟩
        simp only at htable houtputs
        rw [houtputs, htable, List.append_nil]
        exact hevents
      · rw [hs] at hstep
        exact ⟨events ++ [event], hevents.snoc hreq (congrArg some hstep)⟩

/-! ## Sessions -/

/-- The event is a request of the client to log out. -/
def ServerEvent.LogsOut (client : Nat) : ServerEvent → Prop
  | .request client' path _ _ => client' = client ∧ urlpatterns.lookup path = some .logOut
  | .updateUsers _ => False

/-- The event is a login of the client that opens a session for a user. -/
def ServerEvent.OpensSession (site : Site) (users : Users) (client : Nat) (username password : PyStr)
    (user : User) (e : ServerEvent) : Prop :=
  ∃ path env request, e = .request client path env request ∧
    urlpatterns.lookup path = some .logIn ∧ LogsIn site.auth users request username password user

/-- The server does something for the request: it changes the table, or something is observed. -/
def HasEffect (site : Site) (server : Server) (e : ServerEvent) : Prop :=
  (server.step site e).1.table ≠ server.table ∨ (server.step site e).2 ≠ []

theorem authenticated_of_effect {client : Nat}
    (h : HasEffect site server (.request client path env request)) :
    userIsAuthenticated site.auth server.users (server.sessions client) = true := by
  rcases step_cases site server (.request client path env request) with
    ⟨htable, houtputs⟩ | ⟨_, _, _, _, heq, hauth, -⟩
  · rcases h with h | h
    · exact absurd htable h
    · exact absurd houtputs h
  · cases heq
    exact hauth

theorem session_of_serve (env : ServerEnv) (request : HttpRequest) {view : View}
    (hin : view ≠ .logIn) (hout : view ≠ .logOut) :
    (serve site server session env request view).session = session := by
  cases view with
  | logIn => exact absurd rfl hin
  | logOut => exact absurd rfl hout
  | _ => rfl

/-- What a step makes of the session of a client. -/
theorem session_cases (site : Site) (server : Server) (e : ServerEvent) (client : Nat) :
    ((server.step site e).1.sessions client = server.sessions client ∧ ¬ e.LogsOut client) ∨
      (e.LogsOut client ∧ (server.step site e).1.sessions client = none) ∨
      ∃ username password user, e.OpensSession site server.users client username password user ∧
        (server.step site e).1.sessions client =
          some ⟨username, site.auth.sessionAuthHash user.password⟩ := by
  cases e with
  | updateUsers salts => exact Or.inl ⟨rfl, id⟩
  | request client' path env request =>
      cases hview : urlpatterns.lookup path with
      | none => exact Or.inl ⟨by simp [Server.step, hview], by simp [ServerEvent.LogsOut, hview]⟩
      | some view =>
          by_cases hclient : client' = client
          · subst hclient
            have hsession : (server.step site (.request client' path env request)).1.sessions client' =
                (serve site server (server.sessions client') env (request.authenticatedBy site.auth
                  server.users (server.sessions client')) view).session := by
              simp [Server.step, hview]
            rw [hsession]
            by_cases hin : view = .logIn
            · subst hin
              rcases logIn_cases site.auth server.users (server.sessions client') request with
                hsame | ⟨username, password, user, hlogs, hopened⟩
              · exact Or.inl ⟨hsame, by simp [ServerEvent.LogsOut, hview]⟩
              · have hopens : ServerEvent.OpensSession site server.users client' username password user
                    (.request client' path env request) := ⟨path, env, request, rfl, hview, hlogs⟩
                exact Or.inr (Or.inr ⟨username, password, user, hopens, hopened⟩)
            · by_cases hout : view = .logOut
              · subst hout
                exact Or.inr (Or.inl ⟨⟨rfl, hview⟩, rfl⟩)
              · exact Or.inl ⟨session_of_serve env _ hin hout, by simp [ServerEvent.LogsOut, hview, hout]⟩
          · -- the session of another client
            refine Or.inl ⟨?_, fun h => hclient h.1⟩
            simp [Server.step, hview, Function.update_of_ne (Ne.symm hclient)]

theorem ServerEvent.OpensSession.not_logsOut {users : Users} {username password : PyStr} {user : User}
    (h : e.OpensSession site users client username password user) : ¬ e.LogsOut client := by
  rcases h with ⟨path, env, request, rfl, hview, -⟩
  simp [ServerEvent.LogsOut, hview]

/-- In the run the client has opened a session with the password, and has not logged out since. -/
def HasLoggedIn (site : Site) (start : Server) (es : List ServerEvent) (client : Nat)
    (username password : PyStr) (user : User) : Prop :=
  ∃ before login after os opened, es = before ++ login :: after ∧
    Run (serverSystem site) Free start before os opened ∧
    login.OpensSession site opened.users client username password user ∧ ∀ e ∈ after, ¬ e.LogsOut client

theorem exists_login {s : Session} (h : Run (serverSystem site) Free start es os server)
    (hstart : start.sessions client ≠ some s) (hsession : server.sessions client = some s) :
    ∃ password user, HasLoggedIn site start es client s.username password user ∧
      s.authHash = site.auth.sessionAuthHash user.password := by
  -- the event that has opened the session as it is now, and those after it
  rcases h.exists_origin (P := fun server => server.sessions client = some s) hstart hsession with
    ⟨before, login, after, os', u, v, o, hes, hbefore, hu, hstep, hv, hkept⟩
  simp only [serverSystem, Option.some.injEq] at hstep hkept
  have hafter : ∀ e ∈ after, ¬ e.LogsOut client := by
    intro e he
    rcases hkept e he with ⟨w, w', o', hw, hw', hstep'⟩
    rcases session_cases site w e client with ⟨-, hno⟩ | ⟨-, hnone⟩ | ⟨_, _, _, hopens, -⟩
    · exact hno
    · rw [hstep', hw'] at hnone
      cases hnone
    · exact hopens.not_logsOut
  rcases session_cases site u login client with
    ⟨hsame, -⟩ | ⟨-, hnone⟩ | ⟨username, password, user, hopens, hopened⟩
  · rw [hstep, hv] at hsame
    exact absurd hsame.symm hu
  · rw [hstep, hv] at hnone
    cases hnone
  · rw [hstep, hv] at hopened
    cases hopened
    exact ⟨password, user, ⟨before, login, after, os', u, hes, hbefore, hopens, hafter⟩, rfl⟩

/-- In every run, behind each request that has an effect there is a login of its client, with a
password that is still the one of its user, and the client has not logged out since. -/
theorem effects_need_login (hhash : Function.Injective site.auth.sessionAuthHash)
    (h : Run (serverSystem site) Free start es os server)
    (hstart : ∀ client, start.sessions client = none)
    (heffect : HasEffect site server (.request client path env request)) :
    ∃ username password user current, HasLoggedIn site start es client username password user ∧
      server.users username = some current ∧ current.isActive = true ∧
      current.password = user.password := by
  have hauth := authenticated_of_effect heffect
  cases hsession : server.sessions client with
  | none =>
      rw [hsession] at hauth
      cases hauth
  | some s =>
      rw [hsession] at hauth
      rcases userIsAuthenticated_some.1 hauth with ⟨current, hcurrent, hactive, hsame⟩
      have hnot : start.sessions client ≠ some s := by simp [hstart client]
      rcases exists_login h hnot hsession with ⟨password, user, hlogin, hsame'⟩
      exact ⟨s.username, password, user, current, hlogin, hcurrent, hactive,
        hhash (hsame.symm.trans hsame')⟩

/-! ## update_users -/

/-- The command does not run. -/
def ServerEvent.IsRequest : ServerEvent → Prop
  | .request _ _ _ _ => True
  | .updateUsers _ => False

theorem users_of_requests (h : Run (serverSystem site) (fun _ e => e.IsRequest) start es os server) :
    server.users = start.users := by
  refine h.invariant (I := fun _ server => server.users = start.users) rfl ?_
  intro os u e v o hI hreq hstep
  simp only [serverSystem, Option.some.injEq] at hstep
  have husers : (u.step site e).1.users = u.users := by
    cases e with
    | updateUsers salts => exact absurd hreq id
    | request client path env request =>
        simp only [Server.step]
        split <;> rfl
  rw [hstep] at husers
  exact husers.trans hI

variable {entries : List (PyStr × PyStr)} {salts : PyStr → Nat} {name pwd : PyStr}

theorem users_updateUsers (hmanaged : site.managed = some entries) :
    (server.step site (.updateUsers salts)).1.users = setUsers site.auth salts entries server.users := by
  simp [Server.step, updateUsers, hmanaged]

theorem managedUser_of_update (hmanaged : site.managed = some entries) (hentry : (name, pwd) ∈ entries) :
    (server.step site (.updateUsers salts)).1.users name =
      some (managedUser site.auth (salts name) name pwd (server.users name)) := by
  rw [users_updateUsers hmanaged]
  exact setUsers_of_mem (site.nodup_managed entries hmanaged) hentry

theorem password_managedUser {auth : Auth} {salt : Nat} (old : Option User) :
    (managedUser auth salt name pwd old).password = auth.makePassword salt pwd := by
  cases old <;> rfl

/-- No session has been opened with the passwords that the salts make. -/
def FreshSalts (site : Site) (salts : PyStr → Nat) (entries : List (PyStr × PyStr)) (server : Server) :
    Prop :=
  ∀ name pwd, (name, pwd) ∈ entries → ∀ client session, server.sessions client = some session →
    session.authHash ≠ site.auth.sessionAuthHash (site.auth.makePassword (salts name) pwd)

/-- What the command leaves: a managed account takes the passwords that the hasher cannot tell from
the one of the settings, its sessions are over, and nothing else changes. -/
structure Updated (site : Site) (entries : List (PyStr × PyStr)) (server server' : Server) : Prop where
  managed : ∀ name pwd, (name, pwd) ∈ entries → ∀ raw,
    (∃ user, authenticate site.auth server'.users name raw = some user) ↔
      site.auth.passwordKey raw = site.auth.passwordKey pwd ∧
        ∀ old, server.users name = some old → old.isActive = true
  ended : ∀ client session, server.sessions client = some session →
    session.username ∈ entries.map Prod.fst →
      userIsAuthenticated site.auth server'.users (server'.sessions client) = false
  others : ∀ name, name ∉ entries.map Prod.fst → server'.users name = server.users name
  otherSessions : ∀ client session, server.sessions client = some session →
    session.username ∉ entries.map Prod.fst →
      userIsAuthenticated site.auth server'.users (server'.sessions client) =
        userIsAuthenticated site.auth server.users (server.sessions client)
  table : server'.table = server.table

theorem authenticate_managedUser (hkeys : site.auth.ChecksKeys) {users : Users} {salt : Nat}
    {old : Option User} (husers : users name = some (managedUser site.auth salt name pwd old))
    (raw : PyStr) :
    (∃ user, authenticate site.auth users name raw = some user) ↔
      site.auth.passwordKey raw = site.auth.passwordKey pwd ∧
        ∀ user, old = some user → user.isActive = true := by
  have hcheck : ∀ raw, site.auth.checkPassword raw (managedUser site.auth salt name pwd old).password = true ↔
      site.auth.passwordKey raw = site.auth.passwordKey pwd := by
    intro raw
    rw [password_managedUser]
    exact hkeys salt pwd raw
  have hactive : (managedUser site.auth salt name pwd old).isActive = true ↔
      ∀ user, old = some user → user.isActive = true := by
    cases old <;> simp [managedUser]
  simp only [authenticate_eq_some, husers, Option.some.injEq]
  rw [← hcheck raw, ← hactive]
  constructor
  · rintro ⟨user, rfl, hpassword, hok⟩
    exact ⟨hpassword, hok⟩
  · rintro ⟨hpassword, hok⟩
    exact ⟨_, rfl, hpassword, hok⟩

/-- `update_users` brings every account that it manages in line with the settings. -/
theorem updated_updateUsers (hkeys : site.auth.ChecksKeys) (hmanaged : site.managed = some entries)
    (hfresh : FreshSalts site salts entries server) :
    Updated site entries server (server.step site (.updateUsers salts)).1 := by
  have hothers : ∀ name, name ∉ entries.map Prod.fst →
      (server.step site (.updateUsers salts)).1.users name = server.users name := by
    intro name hname
    rw [users_updateUsers hmanaged, setUsers_of_not_mem hname]
  refine ⟨?_, ?_, hothers, ?_, rfl⟩
  · intro name pwd hentry raw
    exact authenticate_managedUser hkeys (managedUser_of_update hmanaged hentry) raw
  · intro client session hsession hname
    rcases List.mem_map.1 hname with ⟨⟨name, pwd⟩, hentry, rfl⟩
    show userIsAuthenticated site.auth _ (server.sessions client) = false
    rw [hsession, ← Bool.not_eq_true, userIsAuthenticated_some]
    rintro ⟨user, huser, -, hhash⟩
    rw [managedUser_of_update hmanaged hentry] at huser
    cases huser
    rw [password_managedUser] at hhash
    exact hfresh _ _ hentry client session hsession hhash
  · intro client session hsession hname
    show userIsAuthenticated site.auth _ (server.sessions client) = _
    rw [hsession]
    simp only [userIsAuthenticated, hothers _ hname]

/-- Until the command runs again, behind each request under the name of a managed account that has an
effect there is a login after the command, with a password that the hasher cannot tell from the one of
the settings. -/
theorem logins_after_update {s : Session} (hkeys : site.auth.ChecksKeys)
    (hhash : Function.Injective site.auth.sessionAuthHash)
    (hmanaged : site.managed = some entries) (hentry : (s.username, pwd) ∈ entries)
    (hfresh : FreshSalts site salts entries start)
    (h : Run (serverSystem site) (fun _ e => e.IsRequest) (start.step site (.updateUsers salts)).1 es os
      server)
    (hsession : server.sessions client = some s)
    (heffect : HasEffect site server (.request client path env request)) :
    ∃ password user, site.auth.passwordKey password = site.auth.passwordKey pwd ∧
      HasLoggedIn site (start.step site (.updateUsers salts)).1 es client s.username password user := by
  have hauth := authenticated_of_effect heffect
  rw [hsession] at hauth
  rcases userIsAuthenticated_some.1 hauth with ⟨current, hcurrent, -, hsame⟩
  rw [users_of_requests h, managedUser_of_update hmanaged hentry] at hcurrent
  cases hcurrent
  rw [password_managedUser] at hsame
  -- the session is none of those from before the command, whose hashes are of other salts
  have hnot : (start.step site (.updateUsers salts)).1.sessions client ≠ some s :=
    fun hopen => hfresh _ _ hentry client s hopen hsame
  rcases exists_login h.free hnot hsession with ⟨password, user, hlogin, hsame'⟩
  have hpassword : user.password = site.auth.makePassword (salts s.username) pwd :=
    hhash (hsame'.symm.trans hsame)
  refine ⟨password, user, ?_, hlogin⟩
  rcases hlogin with ⟨_, _, _, _, _, -, -, ⟨_, _, _, -, -, hlogs⟩, -⟩
  have hcheck := (authenticate_eq_some.1 hlogs.authenticates).2.1
  rw [hpassword] at hcheck
  exact (hkeys _ _ _).1 hcheck

/-! ## A site -/

/-- The zero that pads the key of an HMAC. -/
def nul : PyChar :=
  ⟨0, by decide⟩

/-- A scheme without a secret: the salt, a mark and the password without the NULs at its end. -/
def plainAuth : Auth where
  makePassword := fun salt password =>
    PyStr.ofNat salt ++ ch '$' :: password.rdropWhile (fun c => c = nul)
  checkPassword := fun raw encoded =>
    (encoded.dropWhile (fun c => c ≠ ch '$')).tail == raw.rdropWhile (fun c => c = nul)
  sessionAuthHash := id
  passwordKey := fun password => password.rdropWhile (fun c => c = nul)

theorem checksKeys_plainAuth : plainAuth.ChecksKeys := by
  intro salt password raw
  have hdigits : ∀ c ∈ PyStr.ofNat salt, decide (c ≠ ch '$') = true := by
    intro c hc
    have hdigit := PyStr.isDigit_of_mem_ofNat hc
    refine decide_eq_true ?_
    rintro rfl
    exact absurd hdigit (by decide)
  simp only [plainAuth, List.dropWhile_append_of_pos hdigits, beq_iff_eq]
  exact eq_comm

/-- The LMS is managed by `update_users`. -/
def devSite : Site where
  cfg := devSettings
  auth := plainAuth
  managed := some [(py "lms", py "secret")]
  nodup_managed := by
    rintro entries ⟨rfl⟩
    exact List.nodup_singleton _

def emptyServer : Server :=
  ⟨KeyedTable.empty, fun _ => none, fun _ => none⟩

def loginRequest (username password : PyStr) (husername : PyStr.Encodable username)
    (hpassword : PyStr.Encodable password) : HttpRequest :=
  HttpRequest.ofPost [(py "username", username), (py "password", password)] (by simp [husername, hpassword])
    (py "127.0.0.1")

theorem encodable_lms : PyStr.Encodable (py "lms") := by
  decide

theorem encodable_secret : PyStr.Encodable (py "secret") := by
  decide

def serverEnv : ServerEnv :=
  ⟨pathStorage, ⟨clockAt 0, clockAt 0, true⟩, clockAt 0, ⟨.insertion, clockAt 1, clockAt 1, .timeout⟩,
    ⟨clockAt 1, clockAt 1, .timeout, fun _ => .timeout⟩⟩

def lmsLogin : ServerEvent :=
  .request 1 (py "xqueue/login/") serverEnv
    (loginRequest (py "lms") (py "secret") encodable_lms encodable_secret)

def lmsSubmit : ServerEvent :=
  .request 1 (py "xqueue/submit/") serverEnv (jobFor (py "/lms/1/problem"))

/-- The account of the LMS is created, and the LMS logs in. -/
def firstLogin : List ServerEvent :=
  [.updateUsers (fun _ => 1), lmsLogin]

theorem firstLogin_runs : ((serverSystem devSite).exec emptyServer firstLogin).isSome := by
  decide +kernel

/-- A submit request, after that. -/
theorem effects_need_login_submit :
    ∃ username password user current, HasLoggedIn devSite emptyServer firstLogin 1 username password user ∧
      (((serverSystem devSite).exec emptyServer firstLogin).get firstLogin_runs).1.users username =
        some current ∧ current.isActive = true ∧ current.password = user.password := by
  have heffect : HasEffect devSite
      (((serverSystem devSite).exec emptyServer firstLogin).get firstLogin_runs).1 lmsSubmit :=
    Or.inr (List.isEmpty_eq_false_iff.1 (by decide +kernel))
  exact effects_need_login Function.injective_id (run_get firstLogin_runs) (fun _ => rfl) heffect

/-- The LMS has logged in with a password that the settings have changed since; a grader has logged
in as well. -/
def oldServer : Server :=
  ⟨KeyedTable.empty,
    fun name =>
      if name = py "lms" then some ⟨[], plainAuth.makePassword 0 (py "old"), true⟩
      else if name = py "grader" then some ⟨[], plainAuth.makePassword 0 (py "grader"), true⟩ else none,
    fun client =>
      if client = 1 then some ⟨py "lms", plainAuth.makePassword 0 (py "old")⟩
      else if client = 2 then some ⟨py "grader", plainAuth.makePassword 0 (py "grader")⟩ else none⟩

theorem freshSalts_oldServer : FreshSalts devSite (fun _ => 1) [(py "lms", py "secret")] oldServer := by
  have hnew : ∀ session ∈ [(⟨py "lms", plainAuth.makePassword 0 (py "old")⟩ : Session),
      ⟨py "grader", plainAuth.makePassword 0 (py "grader")⟩],
        session.authHash ≠ plainAuth.makePassword 1 (py "secret") := by
    decide +kernel
  intro name pwd hentry client session hsession
  cases List.mem_singleton.1 hentry
  refine hnew session ?_
  simp only [oldServer] at hsession
  split at hsession
  · cases hsession
    simp
  · split at hsession
    · cases hsession
      simp
    · cases hsession

/-- The password of the LMS changes, its session ends, and that of the grader goes on; the new
password followed by a NUL logs in as well. -/
theorem updated_oldServer :
    let server := (oldServer.step devSite (.updateUsers (fun _ => 1))).1
    Updated devSite [(py "lms", py "secret")] oldServer server ∧
      userIsAuthenticated plainAuth server.users (server.sessions 1) = false ∧
      userIsAuthenticated plainAuth server.users (server.sessions 2) = true ∧
      (authenticate plainAuth server.users (py "lms") (py "old")).isNone = true ∧
      (authenticate plainAuth server.users (py "lms") (py "secret" ++ [nul])).isSome = true :=
  ⟨updated_updateUsers checksKeys_plainAuth rfl freshSalts_oldServer, by decide +kernel⟩

/-- `oldServer` after `update_users`. -/
def newServer : Server :=
  (oldServer.step devSite (.updateUsers (fun _ => 1))).1

/-- The LMS submits a job after the change, having logged in with the new password. -/
theorem logins_after_update_submit :
    ∃ password user, plainAuth.passwordKey password = plainAuth.passwordKey (py "secret") ∧
      HasLoggedIn devSite newServer [lmsLogin] 1 (py "lms") password user := by
  have hrun : Run (serverSystem devSite) (fun _ e => e.IsRequest) newServer [lmsLogin] []
      (newServer.step devSite lmsLogin).1 :=
    Run.single trivial rfl
  have hsession : (newServer.step devSite lmsLogin).1.sessions 1 =
      some ⟨py "lms", plainAuth.makePassword 1 (py "secret")⟩ := by
    decide +kernel
  have heffect : HasEffect devSite (newServer.step devSite lmsLogin).1 lmsSubmit :=
    Or.inr (List.isEmpty_eq_false_iff.1 (by decide +kernel))
  exact logins_after_update checksKeys_plainAuth Function.injective_id rfl (List.mem_singleton_self _) freshSalts_oldServer hrun
    hsession heffect

end Xqueue
