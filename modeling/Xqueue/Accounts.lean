import Xqueue.Views

/-!
# Accounts — users and sessions

The LMS and the graders log in before they use a queue.  This file embeds the views of
`submission_queue/views.py` that do so, and the command `update_users`:

* `User`, `Session`, `authenticate`, `userIsAuthenticated` : what they use of `django.contrib.auth`;
* `logIn`, `logOut`, `status` : the views;
* `updateUsers`, `setUsers_of_mem` : the command, and what it leaves of each account.
-/

namespace Xqueue

open Library

/-! ## What Django keeps of a user -/

/-- A user, under the name that `Users` gives it. -/
structure User where
  email : PyStr
  /-- The encoded password. -/
  password : PyStr
  isActive : Bool

/-- The names of users are unique. -/
abbrev Users : Type :=
  PyStr → Option User

/-- The functions of Django that deal with passwords. -/
structure Auth where
  /-- `make_password`, with the salt that it has drawn. -/
  makePassword : (salt : Nat) → PyStr → PyStr
  /-- `check_password`, of a password and an encoded one. -/
  checkPassword : PyStr → PyStr → Bool
  /-- `get_session_auth_hash`, of the encoded password. -/
  sessionAuthHash : PyStr → PyStr
  /-- The key that the hasher makes of a password.  HMAC pads it with zeros, so the password followed
  by NULs has the same. -/
  passwordKey : PyStr → PyStr

/-- An encoded password verifies the passwords with the same key, and no others. -/
def Auth.ChecksKeys (auth : Auth) : Prop :=
  ∀ salt password raw, auth.checkPassword raw (auth.makePassword salt password) = true ↔
    auth.passwordKey raw = auth.passwordKey password

/-- What a session remembers of the user that has logged in. -/
structure Session where
  username : PyStr
  authHash : PyStr
  deriving DecidableEq

variable {auth : Auth} {users : Users} {session : Option Session} {username password : PyStr} {user : User}

/-- `authenticate`, with the default backend. -/
def authenticate (auth : Auth) (users : Users) (username password : PyStr) : Option User :=
  match users username with
  | none => none
  | some user => if auth.checkPassword password user.password && user.isActive then some user else none

/-- `request.user.is_authenticated`: the session has been opened with the password as it is now. -/
def userIsAuthenticated (auth : Auth) (users : Users) : Option Session → Bool
  | none => false
  | some session =>
      match users session.username with
      | none => false
      | some user => user.isActive && session.authHash == auth.sessionAuthHash user.password

theorem authenticate_eq_some : authenticate auth users username password = some user ↔
    users username = some user ∧ auth.checkPassword password user.password = true ∧
      user.isActive = true := by
  cases h : users username with
  | none => simp [authenticate, h]
  | some u =>
      by_cases hok : (auth.checkPassword password u.password && u.isActive) = true
      · simp only [authenticate, h, hok, if_true, Option.some.injEq]
        rw [Bool.and_eq_true] at hok
        constructor
        · rintro rfl
          exact ⟨rfl, hok⟩
        · exact fun h => h.1
      · simp only [authenticate, h, hok, Bool.false_eq_true, if_false, reduceCtorEq, Option.some.injEq,
          false_iff, not_and]
        rintro rfl hcheck hactive
        exact hok (by rw [hcheck, hactive, Bool.and_self])

theorem userIsAuthenticated_some {s : Session} : userIsAuthenticated auth users (some s) = true ↔
    ∃ user, users s.username = some user ∧ user.isActive = true ∧
      s.authHash = auth.sessionAuthHash user.password := by
  cases h : users s.username <;> simp [userIsAuthenticated, h]

/-! ## The views -/

/-- `log_in`, with the session that it leaves. -/
def logIn (auth : Auth) (users : Users) (session : Option Session) (request : HttpRequest) :
    Option Session × Except PyExc HttpResponse :=
  if request.method = py "POST" then
    -- `'username' and 'password' in p` looks for the password alone
    match QueryDict.get? request.post (py "password") with
    | none => (session, .ok (.failure (py "Insufficient login info")))
    | some password =>
        match QueryDict.get? request.post (py "username") with
        | none => (session, .error .keyError)
        | some username =>
            match authenticate auth users username password with
            | some user =>
                (some ⟨username, auth.sessionAuthHash user.password⟩, .ok (.reply true (.str (py "Logged in"))))
            | none => (session, .ok (.failure (py "Incorrect login credentials")))
  else (session, .ok (.failure (py "login_required")))

/-- `log_out` -/
def logOut : Option Session × Except PyExc HttpResponse :=
  (none, .ok (.reply true (.str (py "Goodbye"))))

/-- `status` -/
def status : HttpResponse :=
  .reply true (.str (py "OK"))

/-- The request carries the name of a user and the password that opens a session for it. -/
structure LogsIn (auth : Auth) (users : Users) (request : HttpRequest) (username password : PyStr)
    (user : User) : Prop where
  isPost : request.method = py "POST"
  hasPassword : QueryDict.get? request.post (py "password") = some password
  hasUsername : QueryDict.get? request.post (py "username") = some username
  authenticates : authenticate auth users username password = some user

/-- A login opens a session for the credentials that it carries, or leaves the session as it is. -/
theorem logIn_cases (auth : Auth) (users : Users) (session : Option Session) (request : HttpRequest) :
    (logIn auth users session request).1 = session ∨
      ∃ username password user, LogsIn auth users request username password user ∧
        (logIn auth users session request).1 = some ⟨username, auth.sessionAuthHash user.password⟩ := by
  unfold logIn
  split
  · rename_i hmethod
    split
    · exact Or.inl rfl
    · rename_i password hpassword
      split
      · exact Or.inl rfl
      · rename_i username husername
        split
        · rename_i user huser
          exact Or.inr ⟨username, password, user, ⟨hmethod, hpassword, husername, huser⟩, rfl⟩
        · exact Or.inl rfl
  · exact Or.inl rfl

theorem session_of_logsIn {request : HttpRequest} (h : LogsIn auth users request username password user) :
    (logIn auth users session request).1 = some ⟨username, auth.sessionAuthHash user.password⟩ := by
  simp only [logIn, h.isPost, h.hasPassword, h.hasUsername, h.authenticates, if_true]

/-! ## update_users -/

/-- One round of the loop: the password is set anew, and an account is created when there is none. -/
def setUser (auth : Auth) (salt : Nat) (username pwd : PyStr) (users : Users) : Users :=
  match users username with
  | some user => Function.update users username (some { user with password := auth.makePassword salt pwd })
  | none => Function.update users username
      (some ⟨username ++ py "@dummy.edx.org", auth.makePassword salt pwd, true⟩)

/-- The loop over `settings.USERS`, with the salts that are drawn. -/
def setUsers (auth : Auth) (salts : PyStr → Nat) : List (PyStr × PyStr) → Users → Users
  | [], users => users
  | (username, pwd) :: rest, users => setUsers auth salts rest (setUser auth (salts username) username pwd users)

/-- `update_users`; the settings of the repository leave `USERS` at `None`. -/
def updateUsers (auth : Auth) (salts : PyStr → Nat) (managed : Option (List (PyStr × PyStr)))
    (users : Users) : Users × Except PyExc Unit :=
  match managed with
  | none => (users, .error .attributeError)
  | some managed => (setUsers auth salts managed users, .ok ())

/-- The account that the command leaves for a name and a password. -/
def managedUser (auth : Auth) (salt : Nat) (username pwd : PyStr) : Option User → User
  | some user => { user with password := auth.makePassword salt pwd }
  | none => ⟨username ++ py "@dummy.edx.org", auth.makePassword salt pwd, true⟩

theorem setUser_eq {salt : Nat} {pwd : PyStr} : setUser auth salt username pwd users =
    Function.update users username (some (managedUser auth salt username pwd (users username))) := by
  unfold setUser
  split <;> simp_all [managedUser]

theorem setUsers_of_not_mem {salts : PyStr → Nat} {managed : List (PyStr × PyStr)}
    (h : username ∉ managed.map Prod.fst) : setUsers auth salts managed users username = users username := by
  induction managed generalizing users with
  | nil => rfl
  | cons entry rest ih =>
      rw [List.map_cons, List.mem_cons, not_or] at h
      rw [setUsers, ih h.2, setUser_eq, Function.update_of_ne h.1]

theorem setUsers_of_mem {salts : PyStr → Nat} {managed : List (PyStr × PyStr)} {pwd : PyStr}
    (hnodup : (managed.map Prod.fst).Nodup) (h : (username, pwd) ∈ managed) :
    setUsers auth salts managed users username =
      some (managedUser auth (salts username) username pwd (users username)) := by
  induction managed generalizing users with
  | nil => cases h
  | cons entry rest ih =>
      rcases List.nodup_cons.1 hnodup with ⟨hnotin, hrest⟩
      rcases List.mem_cons.1 h with rfl | h
      · -- no later entry has the name
        rw [setUsers, setUsers_of_not_mem hnotin, setUser_eq, Function.update_self]
      · have hne : username ≠ entry.1 := by
          rintro rfl
          exact hnotin (List.mem_map.2 ⟨(entry.1, pwd), h, rfl⟩)
        rw [setUsers, ih hrest h, setUser_eq, Function.update_of_ne hne]

end Xqueue
