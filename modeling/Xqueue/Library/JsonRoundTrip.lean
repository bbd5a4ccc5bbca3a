import Xqueue.Library.Json

/-!
# JsonRoundTrip — `loads` undoes `dumps`

`Plain v` says that `v` has no floats and no integers that are too long, that its strings are
encodable and that the keys of each object are distinct; `nesting v` is how deep it is nested.

* `decode_dumps` : `decode depth (dumps v) = .ok v` for every plain value with `nesting v ≤ depth`;
* `decode_deeper`, `loads_of_decode` : a result does not change with more levels of the stack;
* `loads_dumps` : `loads (dumps v) = some v`;
* `encodable_dumps` : every dump is encodable, so that it may be nested in another value.

The proof follows the parser: code units, string literals, numbers, then values by induction on
`Plain`, with one run lemma for the items of an array and one for the members of an object.
-/

namespace Xqueue
namespace Library
namespace Json

open PyStr

inductive Plain : Json → Prop
  | null : Plain .null
  | bool (b : Bool) : Plain (.bool b)
  | int {n : Int} : (ofNat n.natAbs).length ≤ maxStrDigits → Plain (.int n)
  | str {s : PyStr} : Encodable s → Plain (.str s)
  | arr {items : List Json} : (∀ v ∈ items, Plain v) → Plain (.arr items)
  | obj {members : List (PyStr × Json)} : (members.map Prod.fst).Nodup →
      (∀ m ∈ members, Encodable m.1) → (∀ m ∈ members, Plain m.2) → Plain (.obj members)

/-- An object with literal keys. -/
theorem Plain.obj_of_keys {members : List (PyStr × Json)} (keys : List PyStr)
    (hkeys : members.map Prod.fst = keys) (hnodup : keys.Nodup) (henc : ∀ k ∈ keys, Encodable k)
    (hval : ∀ m ∈ members, Plain m.2) : Plain (.obj members) := by
  refine Plain.obj (by rw [hkeys]; exact hnodup) ?_ hval
  intro m hm
  exact henc m.1 (hkeys ▸ List.mem_map_of_mem hm)

mutual

/-- How many objects and arrays are nested in the value. -/
def nesting : Json → Nat
  | .arr items => nestingItems items + 1
  | .obj members => nestingMembers members + 1
  | _ => 0

def nestingItems : List Json → Nat
  | [] => 0
  | v :: vs => max (nesting v) (nestingItems vs)

def nestingMembers : List (PyStr × Json) → Nat
  | [] => 0
  | m :: ms => max (nestingMember m) (nestingMembers ms)

def nestingMember : PyStr × Json → Nat
  | (_, v) => nesting v

end

theorem nesting_le_items {v : Json} {items : List Json} (h : v ∈ items) :
    nesting v ≤ nestingItems items := by
  induction items with
  | nil => exact absurd h List.not_mem_nil
  | cons w items ih =>
      rw [nestingItems]
      rcases List.mem_cons.1 h with rfl | h
      · exact Nat.le_max_left _ _
      · exact Nat.le_trans (ih h) (Nat.le_max_right _ _)

theorem nesting_le_members {m : PyStr × Json} {members : List (PyStr × Json)} (h : m ∈ members) :
    nesting m.2 ≤ nestingMembers members := by
  induction members with
  | nil => exact absurd h List.not_mem_nil
  | cons n members ih =>
      rw [nestingMembers, nestingMember]
      rcases List.mem_cons.1 h with rfl | h
      · exact Nat.le_max_left _ _
      · exact Nat.le_trans (ih h) (Nat.le_max_right _ _)

/-! ## String literals -/

theorem hexVal?_digitChar : ∀ k < 16, hexVal? (ch k.digitChar) = some k := by
  decide

theorem hexVal?_hexDigit (n : Nat) : hexVal? (hexDigit n) = some (n % 16) :=
  hexVal?_digitChar (n % 16) (Nat.mod_lt n (by decide))

theorem scanUnits_unicodeEscape {n : Nat} (h : n < 0x10000) (t : PyStr) :
    scanUnits .plain (unicodeEscape n ++ t) = prepend (n, true) (scanUnits .plain t) := by
  have hslash : ch '\\' ≠ ch '"' := by decide
  -- the four digits, read from the highest
  have hvalue : 16 * (16 * (16 * (16 * 0 + n / 4096 % 16) + n / 256 % 16) + n / 16 % 16) +
      n % 16 = n := by omega
  simp only [unicodeEscape, List.cons_append, List.nil_append, scanUnits, hslash, if_false,
    if_true, hexVal?_hexDigit, hvalue]

theorem simpleEscape?_shortEscape? {c d : PyChar} (h : shortEscape? c = some d) :
    simpleEscape? d = some c.val ∧ d ≠ ch 'u' := by
  unfold shortEscape? at h
  split_ifs at h with h1 h2 h3 h4 h5 h6 h7
  all_goals
    rw [Option.some.injEq] at h
    subst h
    simp only [*]
    decide

theorem scanUnits_shortEscape {c d : PyChar} (h : shortEscape? c = some d) (t : PyStr) :
    scanUnits .plain (ch '\\' :: d :: t) = prepend (c.val, false) (scanUnits .plain t) := by
  have hslash : ch '\\' ≠ ch '"' := by decide
  rcases simpleEscape?_shortEscape? h with ⟨hd, hu⟩
  simp only [scanUnits, hslash, if_false, if_true, hu, hd]

theorem shortEscape?_none {c : PyChar} (h : shortEscape? c = none) :
    c ≠ ch '"' ∧ c ≠ ch '\\' := by
  constructor <;> rintro rfl <;> exact absurd h (by decide)

theorem codePoint_val (c : PyChar) : codePoint c.val = c := by
  simp [codePoint, c.isLt]

theorem joinUnits_cons {n : Nat} {b : Bool} (h : isHigh n = false) (xs : List CodeUnit) :
    joinUnits ((n, b) :: xs) = codePoint n :: joinUnits xs := by
  cases xs with
  | nil => simp [joinUnits]
  | cons y ys => simp [joinUnits, h]

theorem joinUnits_pair {c : PyChar} (h : 0x10000 ≤ c.val) (xs : List CodeUnit) :
    joinUnits ((0xD800 + (c.val - 0x10000) / 0x400, true) ::
      (0xDC00 + (c.val - 0x10000) % 0x400, true) :: xs) = c :: joinUnits xs := by
  have hlt := c.isLt
  have hhigh : isHigh (0xD800 + (c.val - 0x10000) / 0x400) = true := by
    simp only [isHigh, Bool.and_eq_true, decide_eq_true_eq]
    omega
  have hlow : isLow (0xDC00 + (c.val - 0x10000) % 0x400) = true := by
    simp only [isLow, Bool.and_eq_true, decide_eq_true_eq]
    omega
  have hval : 0x10000 + (0xD800 + (c.val - 0x10000) / 0x400 - 0xD800) * 0x400 +
      (0xDC00 + (c.val - 0x10000) % 0x400 - 0xDC00) = c.val := by omega
  simp only [joinUnits, hhigh, hlow, Bool.and_self, if_true, hval, codePoint_val]

/-- Scanning an escaped character yields code units that join back to it. -/
theorem scanUnits_escapeChar {c : PyChar} (hc : Scalar c) :
    ∃ units : List CodeUnit,
      (∀ t, scanUnits .plain (escapeChar c ++ t) = units.foldr prepend (scanUnits .plain t)) ∧
      ∀ xs, joinUnits (units ++ xs) = c :: joinUnits xs := by
  have hnotHigh : isHigh c.val = false := by
    -- a lone surrogate could be joined with the next unit
    simp only [isHigh, Bool.and_eq_false_iff, decide_eq_false_iff_not]
    rcases hc with h | h <;> omega
  have hjoin : ∀ b, ∀ xs, joinUnits ([(c.val, b)] ++ xs) = c :: joinUnits xs := by
    intro b xs
    rw [List.singleton_append, joinUnits_cons hnotHigh, codePoint_val]
  cases hshort : shortEscape? c with
  | some d =>
      refine ⟨[(c.val, false)], fun t => ?_, hjoin false⟩
      simpa [escapeChar, hshort] using scanUnits_shortEscape hshort t
  | none =>
      rcases shortEscape?_none hshort with ⟨hquote, hslash⟩
      by_cases hprint : 0x20 ≤ c.val ∧ c.val ≤ 0x7E
      · refine ⟨[(c.val, false)], fun t => ?_, hjoin false⟩
        have hge : ¬ c.val < 0x20 := by omega
        simp [escapeChar, hshort, hprint, scanUnits, hquote, hslash, hge]
      · by_cases hbmp : c.val < 0x10000
        · refine ⟨[(c.val, true)], fun t => ?_, hjoin true⟩
          simpa [escapeChar, hshort, hprint, hbmp] using scanUnits_unicodeEscape hbmp t
        · -- beyond the basic plane: two escaped surrogates
          have hlt := c.isLt
          have hhi : 0xD800 + (c.val - 0x10000) / 0x400 < 0x10000 := by omega
          have hlo : 0xDC00 + (c.val - 0x10000) % 0x400 < 0x10000 := by omega
          refine ⟨[(0xD800 + (c.val - 0x10000) / 0x400, true),
            (0xDC00 + (c.val - 0x10000) % 0x400, true)], fun t => ?_,
            fun xs => joinUnits_pair (by omega) xs⟩
          calc
            scanUnits .plain (escapeChar c ++ t)
                = scanUnits .plain (unicodeEscape (0xD800 + (c.val - 0x10000) / 0x400) ++
                    (unicodeEscape (0xDC00 + (c.val - 0x10000) % 0x400) ++ t)) := by
                    simp only [escapeChar, hshort, hprint, hbmp, if_false, List.append_assoc]
            _ = prepend (0xD800 + (c.val - 0x10000) / 0x400, true) (scanUnits .plain
                  (unicodeEscape (0xDC00 + (c.val - 0x10000) % 0x400) ++ t)) :=
                scanUnits_unicodeEscape hhi _
            _ = prepend (0xD800 + (c.val - 0x10000) / 0x400, true)
                  (prepend (0xDC00 + (c.val - 0x10000) % 0x400, true) (scanUnits .plain t)) := by
                rw [scanUnits_unicodeEscape hlo]

theorem foldr_prepend (units xs : List CodeUnit) (rest : PyStr) :
    units.foldr prepend (some (xs, rest)) = some (units ++ xs, rest) := by
  induction units with
  | nil => rfl
  | cons x units ih => simp [ih, prepend]

theorem parseStr_escaped : ∀ {s : PyStr}, Encodable s → ∀ rest : PyStr,
    parseStr (s.flatMap escapeChar ++ ch '"' :: rest) = some (s, rest) := by
  intro s hs rest
  have hscan : ∃ units, scanUnits .plain (s.flatMap escapeChar ++ ch '"' :: rest) =
      some (units, rest) ∧ joinUnits units = s := by
    induction s with
    | nil => exact ⟨[], by simp [scanUnits], rfl⟩
    | cons c s ih =>
        rcases encodable_cons.1 hs with ⟨hc, hs'⟩
        rcases ih hs' with ⟨units, hunits, hjoin⟩
        rcases scanUnits_escapeChar hc with ⟨us, hus, husJoin⟩
        refine ⟨us ++ units, ?_, by rw [husJoin, hjoin]⟩
        calc
          scanUnits .plain ((c :: s).flatMap escapeChar ++ ch '"' :: rest)
              = scanUnits .plain (escapeChar c ++ (s.flatMap escapeChar ++ ch '"' :: rest)) := by
                  rw [List.flatMap_cons, List.append_assoc]
          _ = us.foldr prepend (scanUnits .plain (s.flatMap escapeChar ++ ch '"' :: rest)) := hus _
          _ = us.foldr prepend (some (units, rest)) := by rw [hunits]
          _ = some (us ++ units, rest) := foldr_prepend us units rest
  rcases hscan with ⟨units, hunits, hjoin⟩
  simp [parseStr, hunits, hjoin]

/-! ## Numbers -/

/-- What follows a number does not continue it. -/
def Stops (rest : PyStr) : Prop :=
  ∀ c cs, rest = c :: cs → isDigit c = false ∧ c ≠ ch '.' ∧ c ≠ ch 'e' ∧ c ≠ ch 'E'

theorem stops_nil : Stops [] := by
  intro c cs h
  cases h

theorem stops_cons {c : PyChar} {cs : PyStr}
    (h : isDigit c = false ∧ c ≠ ch '.' ∧ c ≠ ch 'e' ∧ c ≠ ch 'E') : Stops (c :: cs) := by
  intro d ds hd
  rw [List.cons.injEq] at hd
  rwa [← hd.1]

theorem takeWhile_digits {ds rest : PyStr} (hd : ∀ c ∈ ds, isDigit c = true) (h : Stops rest) :
    (ds ++ rest).takeWhile isDigit = ds ∧ (ds ++ rest).dropWhile isDigit = rest := by
  induction ds with
  | nil =>
      cases rest with
      | nil => simp
      | cons c cs => simp [(h c cs rfl).1]
  | cons d ds ih =>
      have hhead : isDigit d = true := hd d (by simp)
      have htail := ih (fun c hc => hd c (by simp [hc]))
      simp [hhead, htail]

theorem parseDigits_ofNat (n : Nat) {rest : PyStr} (h : Stops rest) :
    parseDigits (ofNat n ++ rest) = some (ofNat n, rest) := by
  have hdigits : ∀ c ∈ ofNat n, isDigit c = true := fun c hc => isDigit_of_mem_ofNat hc
  rcases Nat.eq_zero_or_pos n with rfl | hpos
  · simp [parseDigits, ofNat, Nat.toDigits_zero]
  · rcases head_ofNat_ne_zero hpos with ⟨c, cs, hcs, hne⟩
    rw [hcs] at hdigits ⊢
    have htail : ∀ d ∈ cs, isDigit d = true := fun d hd => hdigits d (List.mem_cons_of_mem c hd)
    rcases takeWhile_digits htail h with ⟨htake, hdrop⟩
    simp [parseDigits, hne, hdigits c (by simp), htake, hdrop]

theorem parseFrac_stops {rest : PyStr} (h : Stops rest) : parseFrac rest = ([], rest) := by
  cases rest with
  | nil => rfl
  | cons c cs => simp [parseFrac, (h c cs rfl).2.1]

theorem parseExp_stops {rest : PyStr} (h : Stops rest) : parseExp rest = (none, rest) := by
  cases rest with
  | nil => rfl
  | cons c cs => simp [parseExp, (h c cs rfl).2.2.1, (h c cs rfl).2.2.2]

theorem parseNumber_ofNat (negative : Bool) {n : Nat} (hn : (ofNat n).length ≤ maxStrDigits)
    {rest : PyStr} (h : Stops rest) :
    parseNumber negative (ofNat n ++ rest) =
      .ok (.int (if negative then -(n : Int) else n), rest) := by
  simp [parseNumber, parseDigits_ofNat n h, parseFrac_stops h, parseExp_stops h,
    digitsValue_ofNat, Nat.not_lt.2 hn]

theorem ne_of_isDigit {c d : PyChar} (hc : isDigit c = true) (hd : isDigit d = false) :
    c ≠ d := by
  rintro rfl
  rw [hc] at hd
  cases hd

/-! ## Values -/

/-- The text of `v` reads back as `v`, with any fuel of at least its length and levels enough. -/
def ReadsBack (v : Json) : Prop :=
  ∀ depth fuel rest, nesting v ≤ depth → (dumps v).length ≤ fuel → Stops rest →
    parseValue depth fuel (dumps v ++ rest) = .ok (v, rest)

/-- The first character of a value is none of the characters a parser tests for first. -/
def Starts (c : PyChar) : Prop :=
  isWs c = false ∧ c ≠ ch ']' ∧ c ≠ ch '\x7d'

instance (c : PyChar) : Decidable (Starts c) :=
  inferInstanceAs (Decidable (_ ∧ _))

theorem skipWs_cons {c : PyChar} {cs : PyStr} (h : isWs c = false) :
    skipWs (c :: cs) = c :: cs := by
  simp [skipWs, h]

theorem skipWs_space (s : PyStr) : skipWs (ch ' ' :: s) = skipWs s := by
  have h : isWs (ch ' ') = true := by decide
  simp [skipWs, h]

theorem starts_of_isDigit {c : PyChar} (h : isDigit c = true) : Starts c := by
  refine ⟨?_, ne_of_isDigit h (by decide), ne_of_isDigit h (by decide)⟩
  simp [isWs, ne_of_isDigit h (d := ch ' ') (by decide), ne_of_isDigit h (d := ch '\t') (by decide),
    ne_of_isDigit h (d := ch '\n') (by decide), ne_of_isDigit h (d := ch '\r') (by decide)]

theorem starts_dumps {v : Json} (h : Plain v) : ∃ c cs, dumps v = c :: cs ∧ Starts c := by
  cases h with
  | null => exact ⟨ch 'n', py "ull", by decide, by decide⟩
  | bool b =>
      cases b with
      | false => exact ⟨ch 'f', py "alse", by decide, by decide⟩
      | true => exact ⟨ch 't', py "rue", by decide, by decide⟩
  | @int n _ =>
      cases n with
      | ofNat n =>
          rcases List.exists_cons_of_ne_nil (ofNat_ne_nil n) with ⟨c, cs, hcs⟩
          refine ⟨c, cs, by simp [dumps, ofInt, hcs], starts_of_isDigit ?_⟩
          exact isDigit_of_mem_ofNat (n := n) (by simp [hcs])
      | negSucc n => exact ⟨ch '-', ofNat (n + 1), by simp [dumps, ofInt], by decide⟩
  | str _ => exact ⟨ch '"', _, by rw [dumps, dumpsStr, List.cons_append], by decide⟩
  | @arr items _ =>
      cases items with
      | nil => exact ⟨ch '[', py "]", by decide, by decide⟩
      | cons v vs => exact ⟨ch '[', _, by rw [dumps, List.cons_append, List.cons_append], by decide⟩
  | @obj members _ _ _ =>
      cases members with
      | nil => exact ⟨ch '\x7b', py "\x7d", by decide, by decide⟩
      | cons m ms =>
          exact ⟨ch '\x7b', _, by rw [dumps, List.cons_append, List.cons_append], by decide⟩

theorem skipWs_dumps {v : Json} (h : Plain v) (rest : PyStr) :
    skipWs (dumps v ++ rest) = dumps v ++ rest := by
  rcases starts_dumps h with ⟨c, cs, hcs, hstart, _⟩
  rw [hcs, List.cons_append, skipWs_cons hstart]

theorem parseWord_append (word : PyStr) (v : Json) (rest : PyStr) :
    parseWord word v (word ++ rest) = .ok (v, rest) := by
  have hpre : word.isPrefixOf (word ++ rest) = true :=
    List.isPrefixOf_iff_prefix.2 (List.prefix_append word rest)
  simp [parseWord, hpre]

theorem parseValue_ofNat {n : Nat} (hn : (ofNat n).length ≤ maxStrDigits) (depth fuel : Nat)
    {rest : PyStr} (h : Stops rest) :
    parseValue depth (fuel + 1) (ofNat n ++ rest) = .ok (.int n, rest) := by
  rcases List.exists_cons_of_ne_nil (ofNat_ne_nil n) with ⟨c, cs, hcs⟩
  have hc : isDigit c = true := isDigit_of_mem_ofNat (n := n) (by simp [hcs])
  have hnum := parseNumber_ofNat false hn h
  rw [hcs, List.cons_append] at hnum ⊢
  rw [parseValue]
  simp only [ne_of_isDigit hc (d := ch '"') (by decide), ne_of_isDigit hc (d := ch '\x7b') (by decide),
    ne_of_isDigit hc (d := ch '[') (by decide), ne_of_isDigit hc (d := ch 'n') (by decide),
    ne_of_isDigit hc (d := ch 't') (by decide), ne_of_isDigit hc (d := ch 'f') (by decide),
    ne_of_isDigit hc (d := ch 'N') (by decide), ne_of_isDigit hc (d := ch 'I') (by decide),
    ne_of_isDigit hc (d := ch '-') (by decide), if_false]
  simpa using hnum

theorem parseValue_neg {n : Nat} (hn : (ofNat (n + 1)).length ≤ maxStrDigits) (depth fuel : Nat)
    {rest : PyStr} (h : Stops rest) :
    parseValue depth (fuel + 1) (ch '-' :: ofNat (n + 1) ++ rest) = .ok (.int (.negSucc n), rest) := by
  rcases List.exists_cons_of_ne_nil (ofNat_ne_nil (n + 1)) with ⟨c, cs, hcs⟩
  have hc : isDigit c = true := isDigit_of_mem_ofNat (n := n + 1) (by simp [hcs])
  have hI : c ≠ ch 'I' := ne_of_isDigit hc (by decide)
  have hnum := parseNumber_ofNat true hn h
  have hdash : ch '-' ≠ ch '"' ∧ ch '-' ≠ ch '\x7b' ∧ ch '-' ≠ ch '[' ∧ ch '-' ≠ ch 'n' ∧
      ch '-' ≠ ch 't' ∧ ch '-' ≠ ch 'f' ∧ ch '-' ≠ ch 'N' ∧ ch '-' ≠ ch 'I' := by decide
  have hneg : (-((n + 1 : Nat) : Int)) = Int.negSucc n := rfl
  rw [hcs] at hnum ⊢
  simp only [List.cons_append] at hnum ⊢
  rw [parseValue]
  simp only [hdash, if_false, if_true, List.head?_cons, Option.some.injEq, hI, hnum, hneg]

theorem parseValue_str {s : PyStr} (hs : Encodable s) (depth fuel : Nat) (rest : PyStr) :
    parseValue depth (fuel + 1) (dumpsStr s ++ rest) = .ok (.str s, rest) := by
  have happ : dumpsStr s ++ rest = ch '"' :: (s.flatMap escapeChar ++ ch '"' :: rest) := by
    simp [dumpsStr]
  rw [happ, parseValue]
  simp only [if_true, parseStr_escaped hs rest]

/-! ## Arrays -/

theorem dumpsItems_cons (v : Json) (vs : List Json) :
    dumpsItems (v :: vs) = ch ',' :: ch ' ' :: (dumps v ++ dumpsItems vs) := by
  rw [dumpsItems, show py ", " = [ch ',', ch ' '] from by decide]
  rfl

theorem stops_dumpsItems (vs : List Json) (rest : PyStr) :
    Stops (dumpsItems vs ++ ch ']' :: rest) := by
  cases vs with
  | nil => exact stops_cons (by decide)
  | cons v vs =>
      rw [dumpsItems_cons]
      exact stops_cons (by decide)

theorem parseItems_dumps {depth : Nat} : ∀ {vs : List Json} {v : Json} (fuel : Nat) (rest : PyStr),
    (∀ w ∈ v :: vs, Plain w) → (∀ w ∈ v :: vs, ReadsBack w) → (∀ w ∈ v :: vs, nesting w ≤ depth) →
    (dumps v).length + (dumpsItems vs).length + 1 ≤ fuel →
    parseItems depth fuel (dumps v ++ (dumpsItems vs ++ ch ']' :: rest)) = .ok (v :: vs, rest) := by
  intro vs
  induction vs with
  | nil =>
      intro v fuel rest _ hback hdepth hfuel
      obtain ⟨fuel, rfl⟩ : ∃ n, fuel = n + 1 := ⟨fuel - 1, by omega⟩
      have hv := hback v (by simp) depth fuel (ch ']' :: rest) (hdepth v (by simp)) (by omega)
        (stops_dumpsItems [] rest)
      have hend : isWs (ch ']') = false := by decide
      simp only [dumpsItems, List.nil_append, parseItems, hv, skipWs_cons hend, if_true]
  | cons w ws ih =>
      intro v fuel rest hplain hback hdepth hfuel
      obtain ⟨fuel, rfl⟩ : ∃ n, fuel = n + 1 := ⟨fuel - 1, by omega⟩
      have hlen : (dumpsItems (w :: ws)).length = (dumps w).length + (dumpsItems ws).length + 2 := by
        rw [dumpsItems_cons, List.length_cons, List.length_cons, List.length_append]
      have hv := hback v (by simp) depth fuel _ (hdepth v (by simp)) (by omega)
        (stops_dumpsItems (w :: ws) rest)
      have hrest : dumpsItems (w :: ws) ++ ch ']' :: rest =
          ch ',' :: ch ' ' :: (dumps w ++ (dumpsItems ws ++ ch ']' :: rest)) := by
        rw [dumpsItems_cons, List.cons_append, List.cons_append, List.append_assoc]
      have hcomma : isWs (ch ',') = false ∧ ch ',' ≠ ch ']' := by decide
      have htail := ih (v := w) fuel rest (fun x hx => hplain x (List.mem_cons_of_mem v hx))
        (fun x hx => hback x (List.mem_cons_of_mem v hx))
        (fun x hx => hdepth x (List.mem_cons_of_mem v hx)) (by omega)
      rw [parseItems, hv, hrest]
      simp only [skipWs_cons hcomma.1, hcomma.2, if_false, if_true, skipWs_space,
        skipWs_dumps (hplain w (by simp)), htail]

/-! ## Objects -/

theorem dumpsMembers_cons (m : PyStr × Json) (ms : List (PyStr × Json)) :
    dumpsMembers (m :: ms) = ch ',' :: ch ' ' :: (dumpsMember m ++ dumpsMembers ms) := by
  rw [dumpsMembers, show py ", " = [ch ',', ch ' '] from by decide]
  rfl

theorem stops_dumpsMembers (ms : List (PyStr × Json)) (rest : PyStr) :
    Stops (dumpsMembers ms ++ ch '\x7d' :: rest) := by
  cases ms with
  | nil => exact stops_cons (by decide)
  | cons m ms =>
      rw [dumpsMembers_cons]
      exact stops_cons (by decide)

theorem exists_dumpsMember (m : PyStr × Json) : ∃ cs, dumpsMember m = ch '"' :: cs :=
  ⟨_, by rw [dumpsMember, dumpsStr, List.cons_append, List.cons_append, List.cons_append]⟩

/-- One member is read up to what follows its value. -/
theorem parseMembers_step {k : PyStr} {v : Json} (hk : Encodable k) (hv : Plain v)
    {depth fuel : Nat} {tail : PyStr}
    (hback : parseValue depth fuel (dumps v ++ tail) = .ok (v, tail))
    {e : PyChar} {es : PyStr} (htail : skipWs tail = e :: es) :
    parseMembers depth (fuel + 1) (dumpsMember (k, v) ++ tail) =
      if e = ch '\x7d' then .ok ([(k, v)], es)
      else if e = ch ',' then
        (parseMembers depth fuel (skipWs es)).map (fun p => ((k, v) :: p.1, p.2))
      else .error .decode := by
  have happ : dumpsMember (k, v) ++ tail =
      ch '"' :: (k.flatMap escapeChar ++ ch '"' :: (ch ':' :: ch ' ' :: (dumps v ++ tail))) := by
    simp only [dumpsMember, dumpsStr, show py ": " = [ch ':', ch ' '] from by decide]
    simp
  have hcolon : isWs (ch ':') = false := by decide
  rw [happ, parseMembers]
  simp only [ne_eq, not_true_eq_false, if_false, parseStr_escaped hk, skipWs_cons hcolon,
    skipWs_space, skipWs_dumps hv, hback, htail]
  -- the members that follow are read, or not
  cases parseMembers depth fuel (skipWs es) <;> rfl

theorem parseMembers_dumps {depth : Nat} : ∀ {ms : List (PyStr × Json)} {m : PyStr × Json} (fuel : Nat)
    (rest : PyStr), (∀ x ∈ m :: ms, Encodable x.1) → (∀ x ∈ m :: ms, Plain x.2) →
    (∀ x ∈ m :: ms, ReadsBack x.2) → (∀ x ∈ m :: ms, nesting x.2 ≤ depth) →
    (dumpsMember m).length + (dumpsMembers ms).length + 1 ≤ fuel →
    parseMembers depth fuel (dumpsMember m ++ (dumpsMembers ms ++ ch '\x7d' :: rest)) =
      .ok (m :: ms, rest) := by
  intro ms
  induction ms with
  | nil =>
      intro m fuel rest hkeys hplain hback hdepth hfuel
      obtain ⟨fuel, rfl⟩ : ∃ n, fuel = n + 1 := ⟨fuel - 1, by omega⟩
      rcases m with ⟨k, v⟩
      have hlen : (dumps (k, v).2).length ≤ (dumpsMember (k, v)).length := by
        simp only [dumpsMember, List.length_append]
        omega
      have hv := hback (k, v) (by simp) depth fuel (ch '\x7d' :: rest) (hdepth (k, v) (by simp))
        (by omega) (stops_dumpsMembers [] rest)
      have hend : isWs (ch '\x7d') = false := by decide
      rw [dumpsMembers, List.nil_append,
        parseMembers_step (hkeys (k, v) (by simp)) (hplain (k, v) (by simp)) hv (skipWs_cons hend),
        if_pos rfl]
  | cons n ns ih =>
      intro m fuel rest hkeys hplain hback hdepth hfuel
      obtain ⟨fuel, rfl⟩ : ∃ n, fuel = n + 1 := ⟨fuel - 1, by omega⟩
      rcases m with ⟨k, v⟩
      have hlen : (dumps (k, v).2).length ≤ (dumpsMember (k, v)).length := by
        simp only [dumpsMember, List.length_append]
        omega
      have hlens : (dumpsMembers (n :: ns)).length =
          (dumpsMember n).length + (dumpsMembers ns).length + 2 := by
        rw [dumpsMembers_cons, List.length_cons, List.length_cons, List.length_append]
      have hv := hback (k, v) (by simp) depth fuel _ (hdepth (k, v) (by simp)) (by omega)
        (stops_dumpsMembers (n :: ns) rest)
      have hrest : dumpsMembers (n :: ns) ++ ch '\x7d' :: rest =
          ch ',' :: ch ' ' :: (dumpsMember n ++ (dumpsMembers ns ++ ch '\x7d' :: rest)) := by
        rw [dumpsMembers_cons, List.cons_append, List.cons_append, List.append_assoc]
      have hcomma : isWs (ch ',') = false ∧ ch ',' ≠ ch '\x7d' := by decide
      have hquote : isWs (ch '"') = false := by decide
      have htail := ih (m := n) fuel rest (fun x hx => hkeys x (List.mem_cons_of_mem _ hx))
        (fun x hx => hplain x (List.mem_cons_of_mem _ hx))
        (fun x hx => hback x (List.mem_cons_of_mem _ hx))
        (fun x hx => hdepth x (List.mem_cons_of_mem _ hx)) (by omega)
      have hskip : skipWs (dumpsMember n ++ (dumpsMembers ns ++ ch '\x7d' :: rest)) =
          dumpsMember n ++ (dumpsMembers ns ++ ch '\x7d' :: rest) := by
        rcases exists_dumpsMember n with ⟨cs, hcs⟩
        rw [hcs, List.cons_append, skipWs_cons hquote]
      rw [hrest] at hv ⊢
      rw [parseMembers_step (hkeys (k, v) (by simp)) (hplain (k, v) (by simp)) hv
        (skipWs_cons hcomma.1), if_neg hcomma.2, if_pos rfl, skipWs_space, hskip, htail]
      rfl

theorem setItem_of_notMem {d : List (PyStr × Json)} {k : PyStr} (h : k ∉ d.map Prod.fst)
    (v : Json) : setItem d k v = d ++ [(k, v)] := by
  have hnone : d.lookup k = none := by
    rw [List.lookup_eq_none_iff]
    intro m hm
    have hne : k ≠ m.1 := fun e => h (e ▸ List.mem_map_of_mem hm)
    simpa using hne
  simp [setItem, hnone]

theorem dictOf_of_nodup {members : List (PyStr × Json)} (h : (members.map Prod.fst).Nodup) :
    dictOf members = members := by
  have hfold : ∀ (ms d : List (PyStr × Json)), ((d ++ ms).map Prod.fst).Nodup →
      ms.foldl (fun d m => setItem d m.1 m.2) d = d ++ ms := by
    intro ms
    induction ms with
    | nil => simp
    | cons m ms ih =>
        intro d hd
        have hnot : m.1 ∉ d.map Prod.fst := by
          rw [List.map_append, List.nodup_append] at hd
          exact fun hmem => hd.2.2 m.1 hmem m.1 (by simp) rfl
        rw [List.foldl_cons, setItem_of_notMem hnot, ih (d ++ [m]) (by simpa using hd)]
        simp
  simpa [dictOf] using hfold members [] (by simpa using h)

/-! ## The round trip -/

/-- A dump is not empty, so there is fuel for one call. -/
theorem fuel_of_dumps {v : Json} {fuel : Nat} (h : Plain v) (hle : (dumps v).length ≤ fuel) :
    ∃ n, fuel = n + 1 := by
  rcases starts_dumps h with ⟨c, cs, hcs, _⟩
  rw [hcs, List.length_cons] at hle
  exact ⟨fuel - 1, by omega⟩

theorem readsBack_bool (b : Bool) : ReadsBack (.bool b) := by
  intro depth fuel rest _ hle _
  obtain ⟨n, rfl⟩ := fuel_of_dumps (Plain.bool b) hle
  cases b with
  | false =>
      have hword : parseValue depth (n + 1) (py "false" ++ rest) =
          parseWord (py "false") (.bool false) (py "false" ++ rest) := rfl
      simpa [dumps, hword] using parseWord_append (py "false") (.bool false) rest
  | true =>
      have hword : parseValue depth (n + 1) (py "true" ++ rest) =
          parseWord (py "true") (.bool true) (py "true" ++ rest) := rfl
      simpa [dumps, hword] using parseWord_append (py "true") (.bool true) rest

theorem readsBack_arr {items : List Json} (hitems : ∀ v ∈ items, Plain v)
    (hback : ∀ v ∈ items, ReadsBack v) : ReadsBack (.arr items) := by
  intro depth fuel rest hdepth hle _
  obtain ⟨n, rfl⟩ := fuel_of_dumps (Plain.arr hitems) hle
  -- the array takes one level
  rw [nesting] at hdepth
  obtain ⟨depth, rfl⟩ : ∃ d, depth = d + 1 := ⟨depth - 1, by omega⟩
  have hopen : ch '[' ≠ ch '"' ∧ ch '[' ≠ ch '\x7b' := by decide
  cases items with
  | nil =>
      have hend : isWs (ch ']') = false := by decide
      rw [dumps, show py "[]" = [ch '[', ch ']'] from by decide]
      simp [parseValue, skipWs_cons hend, hopen]
  | cons v vs =>
      rcases starts_dumps (hitems v (by simp)) with ⟨c, cs, hcs, _, hclose, _⟩
      have hlen : (dumps v).length + (dumpsItems vs).length + 1 ≤ n := by
        simp only [dumps, List.length_append, List.length_cons, List.length_nil] at hle
        omega
      have hdeep : ∀ w ∈ v :: vs, nesting w ≤ depth :=
        fun w hw => Nat.le_trans (nesting_le_items hw) (Nat.le_of_succ_le_succ hdepth)
      have hrun := parseItems_dumps n rest hitems hback hdeep hlen
      have hskip := skipWs_dumps (hitems v (by simp)) (dumpsItems vs ++ ch ']' :: rest)
      rw [hcs, List.cons_append] at hrun hskip
      have happ : dumps (.arr (v :: vs)) ++ rest =
          ch '[' :: c :: (cs ++ (dumpsItems vs ++ ch ']' :: rest)) := by
        simp [dumps, hcs]
      rw [happ, parseValue]
      simp only [hopen, if_false, if_true, hskip, hclose, Nat.succ_ne_zero, Nat.add_sub_cancel, hrun]

theorem readsBack_obj {members : List (PyStr × Json)} (hn : (members.map Prod.fst).Nodup)
    (hk : ∀ m ∈ members, Encodable m.1) (hv : ∀ m ∈ members, Plain m.2)
    (hback : ∀ m ∈ members, ReadsBack m.2) : ReadsBack (.obj members) := by
  intro depth fuel rest hdepth hle _
  obtain ⟨n, rfl⟩ := fuel_of_dumps (Plain.obj hn hk hv) hle
  -- the object takes one level
  rw [nesting] at hdepth
  obtain ⟨depth, rfl⟩ : ∃ d, depth = d + 1 := ⟨depth - 1, by omega⟩
  have hopen : ch '\x7b' ≠ ch '"' := by decide
  cases members with
  | nil =>
      have hend : isWs (ch '\x7d') = false := by decide
      rw [dumps, show py "\x7b\x7d" = [ch '\x7b', ch '\x7d'] from by decide]
      simp [parseValue, skipWs_cons hend, hopen]
  | cons m ms =>
      have hquote : isWs (ch '"') = false ∧ ch '"' ≠ ch '\x7d' := by decide
      have hlen : (dumpsMember m).length + (dumpsMembers ms).length + 1 ≤ n := by
        simp only [dumps, List.length_append, List.length_cons, List.length_nil] at hle
        omega
      have hdeep : ∀ x ∈ m :: ms, nesting x.2 ≤ depth :=
        fun x hx => Nat.le_trans (nesting_le_members hx) (Nat.le_of_succ_le_succ hdepth)
      have hrun := parseMembers_dumps n rest hk hv hback hdeep hlen
      rcases exists_dumpsMember m with ⟨cs, hcs⟩
      rw [hcs, List.cons_append] at hrun
      have happ : dumps (.obj (m :: ms)) ++ rest =
          ch '\x7b' :: ch '"' :: (cs ++ (dumpsMembers ms ++ ch '\x7d' :: rest)) := by
        simp [dumps, hcs]
      rw [happ, parseValue]
      simp only [hopen, if_false, if_true, skipWs_cons hquote.1, hquote.2, Nat.succ_ne_zero,
        Nat.add_sub_cancel, hrun, dictOf_of_nodup hn]

theorem readsBack_of_plain {v : Json} (h : Plain v) : ReadsBack v := by
  induction h with
  | null =>
      intro depth fuel rest _ hle _
      obtain ⟨n, rfl⟩ := fuel_of_dumps Plain.null hle
      have hword : parseValue depth (n + 1) (py "null" ++ rest) =
          parseWord (py "null") .null (py "null" ++ rest) := rfl
      simpa [dumps, hword] using parseWord_append (py "null") .null rest
  | bool b => exact readsBack_bool b
  | @int n hn =>
      intro depth fuel rest _ hle hstop
      obtain ⟨m, rfl⟩ := fuel_of_dumps (Plain.int hn) hle
      cases n with
      | ofNat n => simpa [dumps, ofInt] using parseValue_ofNat hn depth m hstop
      | negSucc n => simpa [dumps, ofInt] using parseValue_neg hn depth m hstop
  | str hs =>
      intro depth fuel rest _ hle _
      obtain ⟨n, rfl⟩ := fuel_of_dumps (Plain.str hs) hle
      simpa [dumps] using parseValue_str hs depth n rest
  | arr hitems hback => exact readsBack_arr hitems hback
  | obj hn hk hv hback => exact readsBack_obj hn hk hv hback

/-! ## Dumps are ASCII -/

def Ascii (s : PyStr) : Prop :=
  ∀ c ∈ s, c.val < 0x80

instance (s : PyStr) : Decidable (Ascii s) :=
  decidable_of_iff (s.all (fun c => decide (c.val < 0x80)) = true) (by simp [Ascii])

theorem ascii_append {s t : PyStr} : Ascii (s ++ t) ↔ Ascii s ∧ Ascii t := by
  simp [Ascii, or_imp, forall_and]

theorem ascii_cons {c : PyChar} {s : PyStr} : Ascii (c :: s) ↔ c.val < 0x80 ∧ Ascii s := by
  simp [Ascii]

theorem Ascii.encodable {s : PyStr} (h : Ascii s) : Encodable s :=
  fun c hc => scalar_of_lt (Nat.lt_trans (h c hc) (by decide))

theorem ascii_ofNat (n : Nat) : Ascii (ofNat n) := by
  intro c hc
  have := isDigit_of_mem_ofNat hc
  simp only [isDigit, Bool.and_eq_true, decide_eq_true_eq] at this
  omega

theorem hexDigit_lt (n : Nat) : (hexDigit n).val < 0x80 := by
  have h : ∀ k < 16, (ch k.digitChar).val < 0x80 := by decide
  exact h (n % 16) (Nat.mod_lt n (by decide))

theorem ascii_unicodeEscape (n : Nat) : Ascii (unicodeEscape n) := by
  simp only [unicodeEscape, ascii_cons, hexDigit_lt, true_and]
  decide

theorem shortEscape?_lt {c d : PyChar} (h : shortEscape? c = some d) : d.val < 0x80 := by
  unfold shortEscape? at h
  split_ifs at h
  all_goals
    rw [Option.some.injEq] at h
    subst h
    decide

theorem ascii_escapeChar (c : PyChar) : Ascii (escapeChar c) := by
  cases h : shortEscape? c with
  | some d =>
      have hslash : (ch '\\').val < 0x80 := by decide
      simp [escapeChar, h, Ascii, hslash, shortEscape?_lt h]
  | none =>
      simp only [escapeChar, h]
      split_ifs with hprint
      · simp only [ascii_cons]
        exact ⟨by omega, by simp [Ascii]⟩
      · exact ascii_unicodeEscape _
      · exact ascii_append.2 ⟨ascii_unicodeEscape _, ascii_unicodeEscape _⟩

theorem ascii_dumpsStr (s : PyStr) : Ascii (dumpsStr s) := by
  have hquote : (ch '"').val < 0x80 := by decide
  rw [dumpsStr, List.cons_append, ascii_cons, ascii_append]
  refine ⟨hquote, ?_, by simpa [Ascii] using hquote⟩
  intro c hc
  rcases List.mem_flatMap.1 hc with ⟨d, _, hd⟩
  exact ascii_escapeChar d c hd

theorem ascii_ofInt (n : Int) : Ascii (ofInt n) := by
  cases n with
  | ofNat n => exact ascii_ofNat n
  | negSucc n => exact ascii_cons.2 ⟨by decide, ascii_ofNat (n + 1)⟩

theorem ascii_of_subset {s t : PyStr} (h : Ascii t) (hst : ∀ c ∈ s, c ∈ t) : Ascii s :=
  fun c hc => h c (hst c hc)

theorem ascii_layout {ds : PyStr} {point : Int} (h : Ascii ds) : Ascii (PyFloat.layout ds point) := by
  have hzeros : ∀ n, Ascii (List.replicate n (ch '0')) := by
    intro n c hc
    rw [List.eq_of_mem_replicate hc]
    decide
  have htake : ∀ n, Ascii (ds.take n) := fun n => ascii_of_subset h (fun c hc => List.mem_of_mem_take hc)
  have hdrop : ∀ n, Ascii (ds.drop n) := fun n => ascii_of_subset h (fun c hc => List.mem_of_mem_drop hc)
  have hmarks : Ascii (py "0.") ∧ Ascii (py ".0") ∧ Ascii (py ".") ∧ Ascii (py "e-") ∧
      Ascii (py "e+") ∧ Ascii (py "0") ∧ Ascii ([] : PyStr) := by
    decide
  simp only [PyFloat.layout]
  split_ifs <;> simp only [ascii_append, h, hzeros, htake, hdrop, hmarks, ascii_ofNat, and_self]

theorem ascii_trimZeros {digits : PyStr} (h : Ascii digits) : Ascii (PyFloat.trimZeros digits) := by
  refine ascii_of_subset h (fun c hc => ?_)
  exact List.mem_reverse.1 ((List.dropWhile_sublist _).mem (List.mem_reverse.1 hc))

theorem ascii_repr (x : PyFloat) : Ascii x.repr := by
  cases x with
  | nan => decide
  | infinity negative => cases negative <;> decide
  | finite negative m e =>
      have hsign : Ascii (if negative then py "-" else []) := by cases negative <;> decide
      have hzero : Ascii (py "0.0") := by decide
      rw [PyFloat.repr]
      split
      · exact ascii_append.2 ⟨hsign, hzero⟩
      · exact ascii_append.2 ⟨hsign, ascii_layout (ascii_trimZeros (ascii_ofNat _))⟩

theorem ascii_dumpsFloat (x : PyFloat) : Ascii (dumpsFloat x) := by
  cases x with
  | nan => decide
  | infinity negative => cases negative <;> decide
  | finite negative m e =>
      rw [dumpsFloat]
      exact ascii_repr _

mutual

/-- The encoder escapes every character beyond ASCII. -/
theorem ascii_dumps : ∀ v : Json, Ascii (dumps v)
  | .null => by decide
  | .bool b => by cases b <;> decide
  | .int n => ascii_ofInt n
  | .float x => ascii_dumpsFloat x
  | .str s => ascii_dumpsStr s
  | .arr [] => by decide
  | .arr (v :: vs) => by
      have hends : (ch '[').val < 0x80 ∧ Ascii [ch ']'] := by decide
      rw [dumps, ascii_append, List.cons_append, ascii_cons, ascii_append]
      exact ⟨⟨hends.1, ascii_dumps v, ascii_dumpsItems vs⟩, hends.2⟩
  | .obj [] => by decide
  | .obj (m :: ms) => by
      have hends : (ch '\x7b').val < 0x80 ∧ Ascii [ch '\x7d'] := by decide
      rw [dumps, ascii_append, List.cons_append, ascii_cons, ascii_append]
      exact ⟨⟨hends.1, ascii_dumpsMember m, ascii_dumpsMembers ms⟩, hends.2⟩

theorem ascii_dumpsItems : ∀ vs : List Json, Ascii (dumpsItems vs)
  | [] => by decide
  | v :: vs => by
      have hsep : Ascii (py ", ") := by decide
      rw [dumpsItems, ascii_append, ascii_append]
      exact ⟨⟨hsep, ascii_dumps v⟩, ascii_dumpsItems vs⟩

theorem ascii_dumpsMember : ∀ m : PyStr × Json, Ascii (dumpsMember m)
  | (k, v) => by
      have hsep : Ascii (py ": ") := by decide
      rw [dumpsMember, ascii_append, ascii_append]
      exact ⟨⟨ascii_dumpsStr k, hsep⟩, ascii_dumps v⟩

theorem ascii_dumpsMembers : ∀ ms : List (PyStr × Json), Ascii (dumpsMembers ms)
  | [] => by decide
  | m :: ms => by
      have hsep : Ascii (py ", ") := by decide
      rw [dumpsMembers, ascii_append, ascii_append]
      exact ⟨⟨hsep, ascii_dumpsMember m⟩, ascii_dumpsMembers ms⟩

end

theorem encodable_dumps (v : Json) : Encodable (dumps v) :=
  (ascii_dumps v).encodable

/-! ## More levels of the stack -/

/-- With fewer levels than fuel, the first result may be that the levels run out; otherwise the second
one is the same. -/
def RunsOutOr {α : Type} (depth fuel : Nat) (r r' : Except LoadsError α) : Prop :=
  (depth < fuel ∧ r = .error .depth) ∨ r' = r

section Deeper

variable {depth depth' fuel : Nat} {s : PyStr}

theorem parseItems_deeper
    (hvalue : ∀ s, RunsOutOr depth fuel (parseValue depth fuel s) (parseValue depth' fuel s))
    (hitems : ∀ s, RunsOutOr depth fuel (parseItems depth fuel s) (parseItems depth' fuel s)) :
    RunsOutOr depth (fuel + 1) (parseItems depth (fuel + 1) s) (parseItems depth' (fuel + 1) s) := by
  rw [parseItems, parseItems]
  rcases hvalue s with ⟨hlt, hv⟩ | hv
  · exact Or.inl ⟨Nat.lt_succ_of_lt hlt, by simp only [hv]⟩
  · rw [hv]
    rcases parseValue depth fuel s with e | ⟨v, afterValue⟩
    · exact Or.inr rfl
    · dsimp only
      rcases skipWs afterValue with _ | ⟨d, ds⟩
      · exact Or.inr rfl
      · dsimp only
        split_ifs
        · exact Or.inr rfl
        · rcases hitems (skipWs ds) with ⟨hlt, hi⟩ | hi
          · exact Or.inl ⟨Nat.lt_succ_of_lt hlt, by simp only [hi]⟩
          · exact Or.inr (by simp only [hi])
        · exact Or.inr rfl

theorem parseMembers_deeper
    (hvalue : ∀ s, RunsOutOr depth fuel (parseValue depth fuel s) (parseValue depth' fuel s))
    (hmembers : ∀ s, RunsOutOr depth fuel (parseMembers depth fuel s) (parseMembers depth' fuel s)) :
    RunsOutOr depth (fuel + 1) (parseMembers depth (fuel + 1) s)
      (parseMembers depth' (fuel + 1) s) := by
  rcases s with _ | ⟨c, cs⟩
  · exact Or.inr rfl
  · rw [parseMembers, parseMembers]
    split_ifs
    · exact Or.inr rfl
    · rcases parseStr cs with _ | ⟨k, afterKey⟩
      · exact Or.inr rfl
      · dsimp only
        rcases skipWs afterKey with _ | ⟨d, ds⟩
        · exact Or.inr rfl
        · dsimp only
          split_ifs
          · exact Or.inr rfl
          · rcases hvalue (skipWs ds) with ⟨hlt, hv⟩ | hv
            · exact Or.inl ⟨Nat.lt_succ_of_lt hlt, by simp only [hv]⟩
            · rw [hv]
              rcases parseValue depth fuel (skipWs ds) with e | ⟨v, afterValue⟩
              · exact Or.inr rfl
              · dsimp only
                rcases skipWs afterValue with _ | ⟨e, es⟩
                · exact Or.inr rfl
                · dsimp only
                  split_ifs
                  · exact Or.inr rfl
                  · rcases hmembers (skipWs es) with ⟨hlt, hm⟩ | hm
                    · exact Or.inl ⟨Nat.lt_succ_of_lt hlt, by simp only [hm]⟩
                    · exact Or.inr (by simp only [hm])
                  · exact Or.inr rfl

theorem parseValue_deeper (hle : depth ≤ depth')
    (hmembers : ∀ s, RunsOutOr (depth - 1) fuel (parseMembers (depth - 1) fuel s)
      (parseMembers (depth' - 1) fuel s))
    (hitems : ∀ s, RunsOutOr (depth - 1) fuel (parseItems (depth - 1) fuel s)
      (parseItems (depth' - 1) fuel s)) :
    RunsOutOr depth (fuel + 1) (parseValue depth (fuel + 1) s) (parseValue depth' (fuel + 1) s) := by
  rcases s with _ | ⟨c, cs⟩
  · exact Or.inr rfl
  · have hpos : depth ≠ 0 → depth' ≠ 0 := by omega
    rw [parseValue, parseValue]
    by_cases hquote : c = ch '"'
    · simp only [hquote, if_true]
      exact Or.inr rfl
    simp only [hquote, if_false]
    by_cases hbrace : c = ch '\x7b'
    · -- an object takes one level
      simp only [hbrace, if_true]
      by_cases hzero : depth = 0
      · exact Or.inl ⟨by omega, if_pos hzero⟩
      · simp only [hzero, hpos hzero, if_false]
        rcases skipWs cs with _ | ⟨d, ds⟩
        · exact Or.inr rfl
        · dsimp only
          split_ifs
          · exact Or.inr rfl
          · rcases hmembers (d :: ds) with ⟨hlt, hm⟩ | hm
            · exact Or.inl ⟨by omega, by simp only [hm]⟩
            · exact Or.inr (by simp only [hm])
    simp only [hbrace, if_false]
    by_cases hbracket : c = ch '['
    · -- and so does an array
      simp only [hbracket, if_true]
      by_cases hzero : depth = 0
      · exact Or.inl ⟨by omega, if_pos hzero⟩
      · simp only [hzero, hpos hzero, if_false]
        rcases skipWs cs with _ | ⟨d, ds⟩
        · exact Or.inr rfl
        · dsimp only
          split_ifs
          · exact Or.inr rfl
          · rcases hitems (d :: ds) with ⟨hlt, hi⟩ | hi
            · exact Or.inl ⟨by omega, by simp only [hi]⟩
            · exact Or.inr (by simp only [hi])
    simp only [hbracket, if_false]
    exact Or.inr rfl

theorem parse_deeper : ∀ (fuel : Nat) {depth depth' : Nat}, depth ≤ depth' →
    (∀ s, RunsOutOr depth fuel (parseValue depth fuel s) (parseValue depth' fuel s)) ∧
      (∀ s, RunsOutOr depth fuel (parseMembers depth fuel s) (parseMembers depth' fuel s)) ∧
      ∀ s, RunsOutOr depth fuel (parseItems depth fuel s) (parseItems depth' fuel s) := by
  intro fuel
  induction fuel with
  | zero => exact fun _ => ⟨fun _ => Or.inr rfl, fun _ => Or.inr rfl, fun _ => Or.inr rfl⟩
  | succ fuel ih =>
      intro depth depth' hle
      rcases ih hle with ⟨hvalue, hmembers, hitems⟩
      rcases ih (Nat.sub_le_sub_right hle 1) with ⟨-, hmembers', hitems'⟩
      exact ⟨fun s => parseValue_deeper hle hmembers' hitems',
        fun s => parseMembers_deeper hvalue hmembers, fun s => parseItems_deeper hvalue hitems⟩

theorem decode_deeper (hle : depth ≤ depth') :
    RunsOutOr depth (s.length + 1) (decode depth s) (decode depth' s) := by
  rw [decode, decode]
  split_ifs
  · exact Or.inr rfl
  · rcases (parse_deeper (s.length + 1) hle).1 (skipWs s) with ⟨hlt, h⟩ | h
    · exact Or.inl ⟨hlt, by simp only [h]⟩
    · exact Or.inr (by simp only [h])

/-- A value is decoded alike with more levels. -/
theorem decode_mono {v : Json} (h : decode depth s = .ok v) (hle : depth ≤ depth') :
    decode depth' s = .ok v := by
  rcases @decode_deeper depth depth' s hle with ⟨-, hout⟩ | heq
  · rw [h] at hout
    cases hout
  · rw [heq, h]

/-- Where the recursion does not run out, more levels make no difference. -/
theorem loads_eq_decode (h : decode depth s ≠ .error .depth) : loads s = (decode depth s).toOption := by
  have hlong : decode (max depth (s.length + 1)) s = decode depth s := by
    rcases @decode_deeper _ _ s (Nat.le_max_left depth (s.length + 1)) with ⟨-, hout⟩ | heq
    · exact absurd hout h
    · exact heq
  -- one level more than the text is long is enough
  rcases @decode_deeper _ _ s (Nat.le_max_right depth (s.length + 1)) with ⟨hlt, -⟩ | heq
  · exact absurd hlt (Nat.lt_irrefl _)
  · rw [loads, ← heq, hlong]

theorem loads_of_decode {v : Json} (h : decode depth s = .ok v) : loads s = some v := by
  have hout : decode depth s ≠ .error .depth := by simp [h]
  rw [loads_eq_decode hout, h]
  rfl

/-- A text that decodes with enough levels does so with these, or it runs out of them. -/
theorem decode_of_loads_eq_some {v : Json} (h : loads s = some v) (hout : decode depth s ≠ .error .depth) :
    decode depth s = .ok v := by
  rw [loads_eq_decode hout] at h
  cases hdecode : decode depth s with
  | error e => simp [hdecode, Except.toOption] at h
  | ok w => simpa [hdecode, Except.toOption] using h

end Deeper

/-! ## The main theorem -/

theorem decode_dumps {v : Json} {depth : Nat} (h : Plain v) (hdepth : nesting v ≤ depth) :
    decode depth (dumps v) = .ok v := by
  have hback := readsBack_of_plain h depth ((dumps v).length + 1) [] hdepth (by omega) stops_nil
  have hskip := skipWs_dumps h []
  -- a byte order mark is not ASCII
  have hbom : (dumps v).head? ≠ some ⟨0xFEFF, by decide⟩ := by
    intro hhead
    exact absurd (ascii_dumps v _ (List.mem_of_mem_head? hhead)) (by decide)
  rw [List.append_nil] at hback hskip
  simp only [decode, hbom, if_false, hskip, hback]
  rfl

theorem loads_dumps {v : Json} (h : Plain v) : loads (dumps v) = some v :=
  loads_of_decode (decode_dumps h (Nat.le_refl _))

end Json
end Library
end Xqueue
