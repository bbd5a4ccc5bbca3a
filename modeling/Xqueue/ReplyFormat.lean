import Xqueue.Deployment

/-!
# ReplyFormat — malformed replies of graders

`_is_valid_reply` is to return its failure tuple for every reply that is not in the right format.

* `CarriesTags` : the header, the body and the two tags are there;
* `Reading` : which values denote an integer, for `int()` or more strictly;
* `RejectsMalformed` : what the validator and `put_result` are to do with a reply;
* `rejects_malformed_iff` : they do so exactly if the header is not nested too deep for `json.loads`
  and a reply that carries the tags has an id that denotes an integer, since neither
  `RecursionError` nor what `int()` raises is caught.
-/

namespace Xqueue

open Library

variable {reply : QueryDict} {submissionId key : Json} {body : PyStr} {n : Int} {v : Json}
  {nesting : Nat}

/-- Header and body are present, and the header decodes to an object with both tags. -/
def CarriesTags (reply : QueryDict) (submissionId key : Json) (body : PyStr) : Prop :=
  ∃ header members, QueryDict.get? reply (py "xqueue_header") = some header ∧
    QueryDict.get? reply (py "xqueue_body") = some body ∧
    Json.loads header = some (.obj members) ∧
    members.lookup (py "submission_id") = some submissionId ∧
    members.lookup (py "submission_key") = some key

/-- Two readings of "denotes an integer". -/
inductive Reading where
  /-- What `int()` takes: it also truncates floats and takes the two booleans. -/
  | lenient
  | strict
  deriving DecidableEq, Repr

/-- The float has no fractional part. -/
def isIntegral (mantissa : Nat) (exponent : Int) : Bool :=
  mantissa * 2 ^ exponent.toNat % 2 ^ (-exponent).toNat = 0

/-- The integer that a value denotes. -/
def Reading.denotes : Reading → Json → Option Int
  | .lenient, v => (toInt v).toOption
  | .strict, .int n => some n
  | .strict, .str s => PyStr.toInt? s
  | .strict, .float (.finite negative mantissa exponent) =>
      if isIntegral mantissa exponent then some (PyFloat.truncate negative mantissa exponent) else none
  | .strict, _ => none

/-- In both readings the integer is the one that `int()` returns. -/
theorem toInt_of_denotes {reading : Reading} (h : reading.denotes v = some n) : toInt v = .ok n := by
  cases reading with
  | lenient =>
      simp only [Reading.denotes] at h
      cases hv : toInt v with
      | error e => simp [hv, Except.toOption] at h
      | ok m => simpa [hv, Except.toOption] using h
  | strict =>
      cases v with
      | int m => simpa [Reading.denotes, toInt] using h
      | str s =>
          have hs : PyStr.toInt? s = some n := h
          simp [toInt, hs]
      | float x =>
          cases x with
          | finite negative mantissa exponent =>
              simp only [Reading.denotes] at h
              split at h
              · simpa [toInt] using h
              · cases h
          | _ => cases h
      | _ => cases h

/-- The reply is in the right format. -/
def IsWellFormed (reading : Reading) (reply : QueryDict) : Prop :=
  ∃ submissionId key body n, CarriesTags reply submissionId key body ∧
    reading.denotes submissionId = some n

/-- A reply in the right format is accepted with its values; any other gets the failure tuple, and
`put_result` answers that the format is incorrect and changes nothing. -/
structure RejectsMalformed (reading : Reading) (nesting : Nat) (reply : QueryDict) : Prop where
  accepted : ∀ submissionId key body n, CarriesTags reply submissionId key body →
    reading.denotes submissionId = some n → isValidReply nesting reply = .ok (some ⟨n, key, body⟩)
  rejected : ¬ IsWellFormed reading reply → isValidReply nesting reply = .ok none
  answered : ¬ IsWellFormed reading reply → ∀ cfg env request t, request.post = reply →
    request.nesting = nesting → request.isAuthenticated = true → request.method = py "POST" →
      putResult cfg env request t =
        ⟨t, [], .ok (.failure (py "Incorrect reply format"))⟩

/-! ## The validator -/

/-- With the tags in place and levels enough, the result is up to `int()`. -/
theorem isValidReply_of_carriesTags (hout : ¬ reply.RunsOut nesting)
    (h : CarriesTags reply submissionId key body) :
    isValidReply nesting reply =
      match toInt submissionId with
      | .error e => .error e
      | .ok n => .ok (some ⟨n, key, body⟩) := by
  rcases h with ⟨header, members, hheader, hbody, hloads, hid, hkey⟩
  have hdecode : Json.decode nesting header = .ok (.obj members) :=
    Json.decode_of_loads_eq_some hloads (fun herror => hout ⟨header, body, hheader, hbody, herror⟩)
  cases hint : toInt submissionId <;>
    simp only [isValidReply, hheader, hbody, hdecode, hid, hkey, hint]

theorem isValidReply_of_runsOut (h : reply.RunsOut nesting) :
    isValidReply nesting reply = .error .recursionError := by
  rcases h with ⟨header, body, hheader, hbody, herror⟩
  simp only [isValidReply, hheader, hbody, herror]

/-- A reply carries one id only. -/
theorem isWellFormed_iff {reading : Reading} (h : CarriesTags reply submissionId key body) :
    IsWellFormed reading reply ↔ (reading.denotes submissionId).isSome = true := by
  constructor
  · rintro ⟨submissionId', key', body', n, ⟨header', members', hheader', -, hloads', hid', -⟩, hn⟩
    rcases h with ⟨header, members, hheader, -, hloads, hid, -⟩
    rw [hheader] at hheader'
    cases hheader'
    rw [hloads] at hloads'
    cases hloads'
    rw [hid] at hid'
    cases hid'
    simp [hn]
  · intro hsome
    rcases Option.isSome_iff_exists.1 hsome with ⟨n, hn⟩
    exact ⟨submissionId, key, body, n, h, hn⟩

theorem isValidReply_of_not (hout : ¬ reply.RunsOut nesting)
    (h : ¬ ∃ submissionId key body, CarriesTags reply submissionId key body) :
    isValidReply nesting reply = .ok none := by
  unfold isValidReply
  split
  · rename_i header scoreMsg hheader hbody
    split
    · rename_i herror
      exact absurd ⟨header, scoreMsg, hheader, hbody, herror⟩ hout
    · rfl
    · rename_i members hdecode
      split
      · rename_i hid hkey
        exact absurd
          ⟨_, _, _, header, members, hheader, hbody, Json.loads_of_decode hdecode, hid, hkey⟩ h
      · rfl
    · rfl
  · rfl

theorem putResult_of_rejected {cfg : Config} {env : WorkEnv} {request : HttpRequest} {t : Table}
    (hauth : request.isAuthenticated = true) (hmethod : request.method = py "POST")
    (h : isValidReply request.nesting request.post = .ok none) :
    putResult cfg env request t = ⟨t, [], .ok (.failure (py "Incorrect reply format"))⟩ := by
  simp [putResult, putResultChecks, hauth, hmethod, h]

/-- A reply on which the recursion runs out is neither accepted nor rejected. -/
theorem not_runsOut_of_rejectsMalformed {reading : Reading}
    (h : RejectsMalformed reading nesting reply) : ¬ reply.RunsOut nesting := by
  intro hout
  have hraised := isValidReply_of_runsOut hout
  by_cases hwell : IsWellFormed reading reply
  · rcases hwell with ⟨submissionId, key, body, n, htags, hn⟩
    rw [h.accepted submissionId key body n htags hn] at hraised
    cases hraised
  · rw [h.rejected hwell] at hraised
    cases hraised

/-- Malformed replies are rejected, and well-formed ones accepted, exactly if the header is not
nested too deep and a reply that carries the tags has a `submission_id` that denotes an integer. -/
theorem rejects_malformed_iff (reading : Reading) (nesting : Nat) (reply : QueryDict) :
    RejectsMalformed reading nesting reply ↔
      ¬ reply.RunsOut nesting ∧
        ∀ submissionId key body, CarriesTags reply submissionId key body →
          (reading.denotes submissionId).isSome := by
  constructor
  · intro h
    have hout := not_runsOut_of_rejectsMalformed h
    refine ⟨hout, ?_⟩
    intro submissionId key body htags
    by_contra hnone
    have hvalid := isValidReply_of_carriesTags hout htags
    rw [h.rejected (fun hwell => hnone ((isWellFormed_iff htags).1 hwell))] at hvalid
    cases hint : toInt submissionId with
    | error e => simp [hint] at hvalid
    | ok n => simp [hint] at hvalid
  · rintro ⟨hout, hdenotes⟩
    have hreject : ¬ IsWellFormed reading reply → isValidReply nesting reply = .ok none := by
      intro hmalformed
      refine isValidReply_of_not hout ?_
      rintro ⟨submissionId, key, body, htags⟩
      rcases Option.isSome_iff_exists.1 (hdenotes _ _ _ htags) with ⟨n, hn⟩
      exact hmalformed ⟨submissionId, key, body, n, htags, hn⟩
    refine ⟨?_, hreject, ?_⟩
    · intro submissionId key body n htags hn
      rw [isValidReply_of_carriesTags hout htags, toInt_of_denotes hn]
    · rintro hmalformed cfg env request t rfl rfl hauth hmethod
      exact putResult_of_rejected hauth hmethod (hreject hmalformed)

/-- The header of a result, with any value as its id. -/
def headerWithId (submissionId : Json) : PyStr :=
  Json.dumps (.obj [(py "submission_id", submissionId), (py "submission_key", .str (py "k"))])

def replyWithId (submissionId : Json) : QueryDict :=
  [(py "xqueue_header", headerWithId submissionId), (py "xqueue_body", py "graded")]

theorem decode_headerWithId (h : Json.Plain submissionId)
    (hnesting : Json.nesting submissionId < nesting) :
    Json.decode nesting (headerWithId submissionId) =
      .ok (.obj [(py "submission_id", submissionId), (py "submission_key", .str (py "k"))]) := by
  refine Json.decode_dumps (Json.Plain.obj_of_keys [py "submission_id", py "submission_key"] rfl
    (by decide) (by decide) ?_) ?_
  · intro m hm
    simp only [List.mem_cons, List.not_mem_nil, or_false] at hm
    rcases hm with rfl | rfl
    · exact h
    · exact Json.Plain.str (by decide)
  · simpa [Json.nesting, Json.nestingMembers, Json.nestingMember] using Nat.succ_le_of_lt hnesting

/-- `int(None)` raises `TypeError`, for which no reading of the format allows. -/
theorem null_id_raises :
    ¬ (∀ reply, RejectsMalformed .lenient 1000 reply) ∧
      ¬ (∀ reply, RejectsMalformed .strict 1000 reply) := by
  have hdecode := decode_headerWithId Json.Plain.null (show Json.nesting .null < 1000 by decide)
  have htags : CarriesTags (replyWithId .null) .null (.str (py "k")) (py "graded") :=
    ⟨headerWithId .null, _, rfl, rfl, Json.loads_of_decode hdecode, rfl, rfl⟩
  have hout : ¬ (replyWithId .null).RunsOut 1000 := by
    rintro ⟨header, body, hheader, -, herror⟩
    have hsame : headerWithId .null = header := Option.some.inj hheader
    rw [← hsame, hdecode] at herror
    cases herror
  have hraised : isValidReply 1000 (replyWithId .null) = .error .typeError :=
    isValidReply_of_carriesTags hout htags
  have hnot : ∀ reading : Reading, reading.denotes .null = none →
      ¬ RejectsMalformed reading 1000 (replyWithId .null) := by
    intro reading hnone h
    have hmalformed : ¬ IsWellFormed reading (replyWithId .null) := by
      rw [isWellFormed_iff htags, hnone]
      simp
    rw [h.rejected hmalformed] at hraised
    cases hraised
  exact ⟨fun h => hnot .lenient rfl (h _), fun h => hnot .strict rfl (h _)⟩

end Xqueue
