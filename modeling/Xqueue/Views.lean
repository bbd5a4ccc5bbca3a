import Xqueue.Models
import Xqueue.Library.JsonRoundTrip
import Xqueue.Library.PyRepr

/-!
# Views — requests, replies and the helpers of the views

This file embeds what the view functions share:

* `HttpRequest`, `HttpResponse` : what a view receives and returns;
* `composeReply` of `views.py`; `makeHashkey` and `getRequestIp` of `util.py`;
* `HttpResult` : how a call of the `requests` library can end.
-/

namespace Xqueue

open Library

/-! ## Requests -/

/-- The parameters of a request, in order; the last value of a name counts. -/
abbrev QueryDict : Type :=
  List (PyStr × PyStr)

/-- `d[name]`; `none` where Python raises `KeyError`. -/
def QueryDict.get? (d : QueryDict) (name : PyStr) : Option PyStr :=
  (d.filter (fun p => p.1 == name)).getLast?.map Prod.snd

theorem QueryDict.mem_of_get? {d : QueryDict} {name value : PyStr}
    (h : QueryDict.get? d name = some value) : (name, value) ∈ d := by
  rcases Option.map_eq_some_iff.1 h with ⟨p, hp, rfl⟩
  have hmem := List.mem_filter.1 (List.mem_of_getLast? hp)
  have hname : p.1 = name := by simpa using hmem.2
  rw [← hname]
  exact hmem.1

/-- Header and body are present, and `json.loads` runs out of recursion on the header. -/
def QueryDict.RunsOut (d : QueryDict) (nesting : Nat) : Prop :=
  ∃ header body, QueryDict.get? d (py "xqueue_header") = some header ∧
    QueryDict.get? d (py "xqueue_body") = some body ∧ Json.decode nesting header = .error .depth

/-- A request.  Parameters are decoded from bytes with replacement, so they can be encoded
again, and the uploaded files have distinct form names. -/
structure HttpRequest where
  isAuthenticated : Bool
  method : PyStr
  get : QueryDict
  post : QueryDict
  files : List (PyStr × PyStr)
  realIp : Option PyStr
  remoteAddr : Option PyStr
  encodable_post : ∀ p ∈ post, PyStr.Encodable p.2
  /-- How deep `json.loads` can nest before the recursion limit, on the stack of the view; the text
  of what it returns nests no deeper. -/
  nesting : Nat := 1000
  encodable_files : ∀ f ∈ files, PyStr.Encodable f.1
  nodup_files : (files.map Prod.fst).Nodup
  nesting_pos : 0 < nesting := by decide

namespace HttpRequest

/-- A GET request. -/
def ofGet (get : QueryDict) (remoteAddr : PyStr) : HttpRequest where
  isAuthenticated := true
  method := py "GET"
  get := get
  post := []
  files := []
  realIp := none
  remoteAddr := some remoteAddr
  encodable_post := by simp
  encodable_files := by simp
  nodup_files := by simp

/-- A POST request without files. -/
def ofPost (post : QueryDict) (h : ∀ p ∈ post, PyStr.Encodable p.2) (remoteAddr : PyStr) :
    HttpRequest where
  isAuthenticated := true
  method := py "POST"
  get := []
  post := post
  files := []
  realIp := none
  remoteAddr := some remoteAddr
  encodable_post := h
  encodable_files := by simp
  nodup_files := by simp

theorem encodable_of_post {request : HttpRequest} {name value : PyStr}
    (h : QueryDict.get? request.post name = some value) : PyStr.Encodable value :=
  request.encodable_post _ (QueryDict.mem_of_get? h)

end HttpRequest

/-- `get_request_ip` -/
def getRequestIp (request : HttpRequest) : PyStr :=
  -- an empty header counts as none
  let ip := request.realIp.getD []
  if ip = [] then request.remoteAddr.getD (py "None") else ip

/-- `make_hashkey` of a string seed, which it encodes as UTF-8. -/
def makeHashkey (cfg : Config) (seed : PyStr) : Except PyExc PyStr :=
  if PyStr.Encodable seed then .ok (cfg.md5 seed) else .error .unicodeEncodeError

theorem makeHashkey_of_encodable {cfg : Config} {seed : PyStr} (h : PyStr.Encodable seed) :
    makeHashkey cfg seed = .ok (cfg.md5 seed) :=
  if_pos h

theorem eq_md5_of_makeHashkey {cfg : Config} {seed key : PyStr} (h : makeHashkey cfg seed = .ok key) :
    key = cfg.md5 seed := by
  unfold makeHashkey at h
  split at h
  · exact (Except.ok.inj h).symm
  · cases h

/-! ## Decoded values -/

/-- `json.loads(s)` on a stack that allows for the text, with the exception it raises. -/
def jsonLoads (s : PyStr) : Except PyExc Json :=
  match Json.loads s with
  | some v => .ok v
  | none => .error .valueError

/-- `v[key]` for a string key. -/
def subscript (key : PyStr) : Json → Except PyExc Json
  | .obj members =>
      match members.lookup key with
      | some v => .ok v
      | none => .error .keyError
  | _ => .error .typeError

theorem subscript_eq_ok {key : PyStr} {v w : Json} : subscript key v = .ok w ↔
    ∃ members, v = .obj members ∧ members.lookup key = some w := by
  cases v with
  | obj members => cases h : members.lookup key <;> simp [subscript, h]
  | _ => simp [subscript]

/-! ## Replies -/

/-- `compose_reply` -/
def composeReply (success : Bool) (content : Json) : PyStr :=
  let returnCode := if success then 0 else 1
  Json.dumps (.obj [(py "return_code", .int returnCode), (py "content", content)])

/-- What a view returns: `HttpResponse(compose_reply(..))`, or the redirect of
`login_required`. -/
inductive HttpResponse where
  | reply (success : Bool) (content : Json)
  | loginRedirect

namespace HttpResponse

/-- A refusal with its text. -/
def failure (content : PyStr) : HttpResponse :=
  .reply false (.str content)

def isSuccess : HttpResponse → Bool
  | .reply success _ => success
  | .loginRedirect => false

def body : HttpResponse → PyStr
  | .reply success content => composeReply success content
  | .loginRedirect => []

/-- The body of a reply decodes to its return code and its content. -/
theorem loads_body (success : Bool) {content : Json} (h : Json.Plain content) :
    Json.loads (reply success content).body = some
      (.obj [(py "return_code", .int (if success then 0 else 1)), (py "content", content)]) := by
  refine Json.loads_dumps
    (Json.Plain.obj_of_keys [py "return_code", py "content"] rfl (by decide) (by decide) ?_)
  intro m hm
  simp only [List.mem_cons, List.not_mem_nil, or_false] at hm
  rcases hm with rfl | rfl
  · exact Json.Plain.int (by cases success <;> decide)
  · exact h

end HttpResponse

/-! ## Calls of the `requests` library -/

/-- How a call ends: with a response, or with an exception. -/
inductive HttpResult where
  | response (statusCode : Int) (text : PyStr)
  | connectionError
  | timeout
  | raised (e : PyExc)
  deriving DecidableEq, Repr

end Xqueue
