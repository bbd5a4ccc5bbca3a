import Xqueue.Deployment
import Xqueue.Operations

/-!
# RequestFormat — what the validation of a submit request promises

`_is_valid_request` looks for its three tags and returns the callback as it is, yet the code after
it slices the callback, filters by it and stores it as a text.

* `CarriesMetadata` : header and body are there, and the header has the three tags;
* `Usable` : a request that is accepted has values that the rest of the service can use;
* `usable_iff` : exactly if the callback is a string that begins with encodable characters, and
  the header is nested too deep for `json.loads` neither here nor in the process that delivers.
-/

namespace Xqueue

open Library

variable {cfg : Config} {xrequest : QueryDict} {valid : ValidRequest} {lmsCallbackUrl : Json}
  {nesting nesting' : Nat}

/-- Header and body are present, and the header decodes to an object with the three tags. -/
def CarriesMetadata (xrequest : QueryDict) (lmsCallbackUrl : Json) : Prop :=
  ∃ header body members lmsKey queueName,
    QueryDict.get? xrequest (py "xqueue_header") = some header ∧
    QueryDict.get? xrequest (py "xqueue_body") = some body ∧
    Json.loads header = some (.obj members) ∧
    members.lookup (py "lms_callback_url") = some lmsCallbackUrl ∧
    members.lookup (py "lms_key") = some lmsKey ∧
    members.lookup (py "queue_name") = some queueName

/-- The validation raises nothing.  If it accepts the request, the callback is a string; slicing it,
filtering by it and storing it raise nothing; a process with `nesting'` levels for `json.loads`
decodes the header and finds the callback in it; and a delivery for the row stored posts there. -/
structure Usable (cfg : Config) (nesting nesting' : Nat) (xrequest : QueryDict) : Prop where
  returns : ∀ e, isValidRequest cfg nesting xrequest ≠ .error e
  string : ∀ valid, isValidRequest cfg nesting xrequest = .ok (some valid) →
    ∃ u, valid.lmsCallbackUrl = .str u
  storable : ∀ valid, isValidRequest cfg nesting xrequest = .ok (some valid) →
    ∃ callback, storedCallback cfg valid.lmsCallbackUrl = .ok callback
  decodable : ∀ valid, isValidRequest cfg nesting xrequest = .ok (some valid) →
    ∃ members, Json.decode nesting' valid.header = .ok (.obj members) ∧
      members.lookup (py "lms_callback_url") = some valid.lmsCallbackUrl
  deliverable : ∀ valid, isValidRequest cfg nesting xrequest = .ok (some valid) →
    ∀ (σ : Type) (storage : Storage σ) env (request : HttpRequest) (st : σ) t row,
      request.post = xrequest → request.nesting = nesting →
      .inserted request row ∈ (submit cfg storage env request st t).2.outputs →
        row.xqueueHeader = valid.header ∧
          Xqueue.lmsCallbackUrl row.xqueueHeader = .ok valid.lmsCallbackUrl ∧
          ∀ lms body, ∀ p ∈ (row.deliver lms body).posts, p.url = valid.lmsCallbackUrl

/-- The recursion that runs out is all that the validation raises. -/
theorem isValidRequest_eq_error_iff {e : PyExc} :
    isValidRequest cfg nesting xrequest = .error e ↔ e = .recursionError ∧ xrequest.RunsOut nesting := by
  constructor
  · intro h
    unfold isValidRequest at h
    split at h
    · rename_i header body hheader hbody
      split at h
      · rename_i herror
        cases h
        exact ⟨rfl, header, body, hheader, hbody, herror⟩
      · cases h
      · split at h <;> cases h
      · cases h
    · cases h
  · rintro ⟨rfl, header, body, hheader, hbody, herror⟩
    simp only [isValidRequest, hheader, hbody, herror]

/-- The metadata is all that the validation asks for, if there are levels enough. -/
theorem carriesMetadata_iff (hout : ¬ xrequest.RunsOut nesting) :
    CarriesMetadata xrequest lmsCallbackUrl ↔
      ∃ valid, isValidRequest cfg nesting xrequest = .ok (some valid) ∧
        valid.lmsCallbackUrl = lmsCallbackUrl := by
  constructor
  · rintro ⟨header, body, members, lmsKey, queueName, hheader, hbody, hloads, hurl, hkey, hname⟩
    have hdecode : Json.decode nesting header = .ok (.obj members) :=
      Json.decode_of_loads_eq_some hloads (fun herror => hout ⟨header, body, hheader, hbody, herror⟩)
    refine ⟨⟨lmsCallbackUrl, Json.pyStr cfg.isPrintable queueName, header, body⟩, ?_, rfl⟩
    simp only [isValidRequest, hheader, hbody, hdecode, hurl, hkey, hname]
  · rintro ⟨valid, hvalid, rfl⟩
    rcases isValidRequest_eq_some hvalid with
      ⟨hheader, hbody, members, lmsKey, queueName, hdecode, hurl, hkey, hname, -⟩
    exact ⟨_, _, members, lmsKey, queueName, hheader, hbody, Json.loads_of_decode hdecode, hurl, hkey,
      hname⟩

/-- The header of an accepted request decodes where there are levels enough for it. -/
theorem decodable_iff (hvalid : isValidRequest cfg nesting xrequest = .ok (some valid)) :
    (∃ members, Json.decode nesting' valid.header = .ok (.obj members) ∧
      members.lookup (py "lms_callback_url") = some valid.lmsCallbackUrl) ↔
        ¬ xrequest.RunsOut nesting' := by
  rcases isValidRequest_eq_some hvalid with ⟨hheader, hbody, members, -, -, hdecode, hurl, -⟩
  constructor
  · rintro ⟨members', hdecode', -⟩ ⟨header', body', hheader', -, herror⟩
    rw [hheader] at hheader'
    cases hheader'
    rw [hdecode'] at herror
    cases herror
  · intro hout
    exact ⟨members, Json.decode_of_loads_eq_some (Json.loads_of_decode hdecode)
      (fun herror => hout ⟨_, _, hheader, hbody, herror⟩), hurl⟩

theorem storedCallback_str_iff {u : PyStr} :
    (∃ callback, storedCallback cfg (.str u) = .ok callback) ↔ PyStr.Encodable (u.take 128) := by
  by_cases henc : PyStr.Encodable (u.take 128) <;>
    simp [storedCallback, sliceCallback, charField, Json.pyStr, henc]

/-- The row stored keeps the header that has been validated. -/
theorem deliverable_of_inserted {σ : Type} {storage : Storage σ} {env : SubmitEnv}
    {request : HttpRequest} {st : σ} {t : Table} {row : Submission}
    (hvalid : isValidRequest cfg request.nesting request.post = .ok (some valid))
    (h : .inserted request row ∈ (submit cfg storage env request st t).2.outputs) :
    row.xqueueHeader = valid.header ∧
      Xqueue.lmsCallbackUrl row.xqueueHeader = .ok valid.lmsCallbackUrl ∧
      ∀ lms body, ∀ p ∈ (row.deliver lms body).posts, p.url = valid.lmsCallbackUrl := by
  rcases stored_of_inserted h with ⟨-, valid', callback, urlsJson, keysJson, hchecks, -, rfl, -⟩
  have hsame : valid' = valid := by
    rcases submitChecks_eq_ok.1 hchecks with ⟨-, -, hvalid', -⟩
    rw [hvalid] at hvalid'
    exact (Option.some.inj (Except.ok.inj hvalid')).symm
  subst hsame
  have hurl := lmsCallbackUrl_of_submitChecks hchecks
  refine ⟨rfl, hurl, fun lms body p hp => ?_⟩
  have hpost : Xqueue.lmsCallbackUrl valid'.header = .ok p.url := (mem_posts hp).1
  rw [hurl] at hpost
  exact (Except.ok.inj hpost).symm

/-- Accepted requests are usable exactly if the callback is a string whose stored part can be
encoded, and the recursion runs out in neither process. -/
theorem usable_iff (cfg : Config) (nesting nesting' : Nat) (xrequest : QueryDict) :
    Usable cfg nesting nesting' xrequest ↔
      ¬ xrequest.RunsOut nesting ∧
        ∀ lmsCallbackUrl, CarriesMetadata xrequest lmsCallbackUrl →
          (∃ u, lmsCallbackUrl = .str u ∧ PyStr.Encodable (u.take 128)) ∧
            ¬ xrequest.RunsOut nesting' := by
  constructor
  · intro h
    have hout : ¬ xrequest.RunsOut nesting :=
      fun hruns => h.returns _ (isValidRequest_eq_error_iff.2 ⟨rfl, hruns⟩)
    refine ⟨hout, ?_⟩
    intro url hmetadata
    rcases (@carriesMetadata_iff cfg _ _ _ hout).1 hmetadata with ⟨valid, hvalid, rfl⟩
    rcases h.string valid hvalid with ⟨u, hu⟩
    have hstorable := h.storable valid hvalid
    rw [hu] at hstorable
    exact ⟨⟨u, hu, storedCallback_str_iff.1 hstorable⟩,
      (decodable_iff hvalid).1 (h.decodable valid hvalid)⟩
  · rintro ⟨hout, h⟩
    have hvalid' : ∀ valid, isValidRequest cfg nesting xrequest = .ok (some valid) →
        (∃ u, valid.lmsCallbackUrl = .str u ∧ PyStr.Encodable (u.take 128)) ∧
          ¬ xrequest.RunsOut nesting' :=
      fun valid hvalid => h _ ((carriesMetadata_iff hout).2 ⟨valid, hvalid, rfl⟩)
    refine ⟨?_, ?_, ?_, ?_, ?_⟩
    · intro e herror
      exact hout (isValidRequest_eq_error_iff.1 herror).2
    · intro valid hvalid
      rcases (hvalid' valid hvalid).1 with ⟨u, hu, -⟩
      exact ⟨u, hu⟩
    · intro valid hvalid
      rcases (hvalid' valid hvalid).1 with ⟨u, hu, henc⟩
      rw [hu]
      exact storedCallback_str_iff.2 henc
    · intro valid hvalid
      exact (decodable_iff hvalid).2 (hvalid' valid hvalid).2
    · rintro valid hvalid σ storage env request st t row rfl rfl hinserted
      exact deliverable_of_inserted hvalid hinserted

def numberHeader : PyStr :=
  Json.dumps (.obj [(py "lms_callback_url", .int 5), (py "lms_key", .str (py "k")),
    (py "queue_name", .str (py "test-pull"))])

/-- A request whose callback is a number. -/
def numberCallback : QueryDict :=
  [(py "xqueue_header", numberHeader), (py "xqueue_body", py "answer")]

/-- It is accepted, and then the number cannot be sliced. -/
theorem number_callback_accepted : ¬ (∀ cfg xrequest, Usable cfg 1000 1000 xrequest) := by
  intro h
  have hplain : Json.Plain (.obj [(py "lms_callback_url", .int 5), (py "lms_key", .str (py "k")),
      (py "queue_name", .str (py "test-pull"))]) := by
    refine Json.Plain.obj_of_keys [py "lms_callback_url", py "lms_key", py "queue_name"] rfl
      (by decide) (by decide) ?_
    intro m hm
    simp only [List.mem_cons, List.not_mem_nil, or_false] at hm
    rcases hm with rfl | rfl | rfl
    · exact Json.Plain.int (by decide)
    · exact Json.Plain.str (by decide)
    · exact Json.Plain.str (by decide)
  have hdecode : Json.decode 1000 numberHeader = _ := Json.decode_dumps hplain (by decide)
  have hheader : QueryDict.get? numberCallback (py "xqueue_header") = some numberHeader := rfl
  have hbody : QueryDict.get? numberCallback (py "xqueue_body") = some (py "answer") := rfl
  have hkey : (py "lms_key" == py "lms_callback_url") = false := by decide
  have hname₁ : (py "queue_name" == py "lms_callback_url") = false := by decide
  have hname₂ : (py "queue_name" == py "lms_key") = false := by decide
  have hvalid : isValidRequest devSettings 1000 numberCallback =
      .ok (some ⟨.int 5, py "test-pull", numberHeader, py "answer"⟩) := by
    unfold isValidRequest
    rw [hheader, hbody]
    simp [hdecode, List.lookup_cons, hkey, hname₁, hname₂, Json.pyStr]
  rcases (h devSettings numberCallback).storable _ hvalid with ⟨callback, hcallback⟩
  cases hcallback

end Xqueue
