import Mathlib.Data.List.TakeWhile
import Xqueue.Library.JsonRoundTrip

/-!
# JsonPrefix — what can follow the text of an object

An object ends with its closing brace: a decoder that has read one makes the same of every longer
text, up to that brace.  Only a number can go on in the text that follows it.

* `Extends`, `ExtendsOk` : a parser's result on a longer text, with the rest extended;
* `scanUnits_extends`, `parseWord_extends`, `parseNumber_extends` : the tokens;
* `parse_extends` : values, members and items, by induction on the fuel;
* `isWs_of_loads_append` : a text that starts with the text of an object is read as JSON only if
  white space follows.
-/

namespace Xqueue
namespace Library
namespace Json

open PyStr

variable {α : Type} {s z rest : PyStr} {r r' : Option (α × PyStr)} {depth : Nat}

/-- The second result is the first one, with `z` after the rest. -/
def Extends (z : PyStr) (r r' : Option (α × PyStr)) : Prop :=
  ∀ v rest, r = some (v, rest) → r' = some (v, rest ++ z)

theorem extends_none : Extends z none r' := by
  intro v rest h
  cases h

theorem extends_some {v : α} : Extends z (some (v, rest)) (some (v, rest ++ z)) := by
  intro v' rest' h
  cases h
  rfl

/-- The same for the parsers that can raise. -/
def ExtendsOk (z : PyStr) (r r' : Parsed α) : Prop :=
  ∀ v rest, r = .ok (v, rest) → r' = .ok (v, rest ++ z)

theorem extendsOk_error {e : LoadsError} {r' : Parsed α} : ExtendsOk z (.error e) r' := by
  intro v rest h
  cases h

theorem extendsOk_ok {v : α} : ExtendsOk z (.ok (v, rest)) (.ok (v, rest ++ z)) := by
  intro v' rest' h
  cases h
  rfl

/-! ## Strings and words -/

theorem Extends.prepend {x : CodeUnit} {r r' : Option (List CodeUnit × PyStr)}
    (h : Extends z r r') : Extends z (prepend x r) (prepend x r') := by
  cases r with
  | none => exact extends_none
  | some p =>
      rw [h p.1 p.2 rfl]
      exact extends_some

theorem scanUnits_extends : ∀ {s : PyStr} {state : Scan},
    Extends z (scanUnits state s) (scanUnits state (s ++ z)) := by
  intro s
  induction s with
  | nil =>
      intro state
      cases state <;> exact extends_none
  | cons c cs ih =>
      intro state
      cases state with
      | plain =>
          simp only [List.cons_append, scanUnits]
          split_ifs
          · exact extends_some
          · exact ih
          · exact extends_none
          · exact ih.prepend
      | escape =>
          simp only [List.cons_append, scanUnits]
          split_ifs
          · exact ih
          · cases simpleEscape? c with
            | none => exact extends_none
            | some n => exact ih.prepend
      | hex left value =>
          simp only [List.cons_append, scanUnits]
          cases hexVal? c with
          | none => exact extends_none
          | some d =>
              cases left with
              | zero => exact ih.prepend
              | succ left => exact ih

theorem parseStr_extends : Extends z (parseStr s) (parseStr (s ++ z)) := by
  have hscan := @scanUnits_extends z s .plain
  rw [parseStr, parseStr]
  cases hunits : scanUnits .plain s with
  | none => exact extends_none
  | some p =>
      rw [hscan p.1 p.2 hunits]
      exact extends_some

theorem parseWord_extends {word : PyStr} {v : Json} :
    ExtendsOk z (parseWord word v s) (parseWord word v (s ++ z)) := by
  by_cases hpre : word.isPrefixOf s = true
  · rcases List.isPrefixOf_iff_prefix.1 hpre with ⟨t, rfl⟩
    rw [List.append_assoc, parseWord_append, parseWord_append]
    exact extendsOk_ok
  · rw [parseWord, if_neg hpre]
    exact extendsOk_error

/-! ## Numbers -/

/-- Something follows, and it does not continue a number. -/
def StopsAt (rest : PyStr) : Prop :=
  rest ≠ [] ∧ Stops rest

theorem takeWhile_append_of_dropWhile {p : PyChar → Bool} (h : s.dropWhile p ≠ []) :
    (s ++ z).takeWhile p = s.takeWhile p ∧ (s ++ z).dropWhile p = s.dropWhile p ++ z := by
  induction s with
  | nil => exact absurd rfl h
  | cons c cs ih =>
      by_cases hc : p c = true
      · simp only [List.dropWhile_cons_of_pos hc] at h
        simp [hc, ih h]
      · simp [hc]

theorem parseDigits_extends (hrest : ∀ ds rest, parseDigits s = some (ds, rest) → rest ≠ []) :
    Extends z (parseDigits s) (parseDigits (s ++ z)) := by
  cases s with
  | nil => exact extends_none
  | cons c cs =>
      simp only [List.cons_append, parseDigits] at hrest ⊢
      split_ifs at hrest ⊢
      · exact extends_some
      · rcases takeWhile_append_of_dropWhile (z := z) (hrest _ _ rfl) with ⟨htake, hdrop⟩
        rw [htake, hdrop]
        exact extends_some
      · exact extends_none

/-- The fraction ends in the text, unless it is a point that nothing continues. -/
theorem parseFrac_append (hs : s ≠ []) (hrest : (parseFrac s).2 ≠ [])
    (hpoint : (parseFrac s).2.head? ≠ some (ch '.')) :
    parseFrac (s ++ z) = ((parseFrac s).1, (parseFrac s).2 ++ z) := by
  cases s with
  | nil => exact absurd rfl hs
  | cons c cs =>
      simp only [List.cons_append, parseFrac] at hrest hpoint ⊢
      by_cases hc : c = ch '.'
      · by_cases hdigits : cs.takeWhile isDigit = []
        · simp [hdigits, hc] at hpoint
        · simp only [hc, hdigits, ne_eq, not_false_eq_true, and_self, if_true] at hrest ⊢
          rcases takeWhile_append_of_dropWhile (z := z) hrest with ⟨htake, hdrop⟩
          simp [htake, hdrop, hdigits]
      · simp [hc]

/-- The digits of an exponent, after its sign. -/
def exponentDigits (s : PyStr) : PyStr :=
  if s.head? = some (ch '-') ∨ s.head? = some (ch '+') then s.tail else s

theorem exponentDigits_append (hs : s ≠ []) : exponentDigits (s ++ z) = exponentDigits s ++ z := by
  have hhead : (s ++ z).head? = s.head? := List.head?_append_of_ne_nil s hs
  by_cases hsign : s.head? = some (ch '-') ∨ s.head? = some (ch '+')
  · rw [exponentDigits, exponentDigits, hhead, if_pos hsign, if_pos hsign,
      List.tail_append_of_ne_nil hs]
  · rw [exponentDigits, exponentDigits, hhead, if_neg hsign, if_neg hsign]

/-- The exponent ends in the text, unless it is a letter that nothing continues. -/
theorem parseExp_append (hs : s ≠ []) (hrest : (parseExp s).2 ≠ [])
    (hletter : (parseExp s).2.head? ≠ some (ch 'e') ∧ (parseExp s).2.head? ≠ some (ch 'E')) :
    parseExp (s ++ z) = ((parseExp s).1, (parseExp s).2 ++ z) := by
  cases s with
  | nil => exact absurd rfl hs
  | cons c cs =>
      by_cases hc : c = ch 'e' ∨ c = ch 'E'
      · have hparse : ∀ t, parseExp (c :: t) =
            if (exponentDigits t).takeWhile isDigit = [] then (none, c :: t)
            else
              (some (if t.head? = some (ch '-') then
                  -(digitsValue ((exponentDigits t).takeWhile isDigit) : Int)
                else digitsValue ((exponentDigits t).takeWhile isDigit)),
                (exponentDigits t).dropWhile isDigit) := by
          intro t
          simp only [parseExp, hc, if_true]
          rfl
        rw [hparse] at hrest hletter ⊢
        rw [List.cons_append, hparse]
        by_cases hdigits : (exponentDigits cs).takeWhile isDigit = []
        · rw [if_pos hdigits] at hletter
          rcases hc with rfl | rfl
          · exact absurd rfl hletter.1
          · exact absurd rfl hletter.2
        · have hcs : cs ≠ [] := by
            rintro rfl
            exact hdigits rfl
          have hhead : (cs ++ z).head? = cs.head? := List.head?_append_of_ne_nil cs hcs
          rw [if_neg hdigits] at hrest ⊢
          rcases takeWhile_append_of_dropWhile (z := z) hrest with ⟨htake, hdrop⟩
          rw [exponentDigits_append hcs, htake, hdrop, hhead, if_neg hdigits]
      · have hparse : ∀ t, parseExp (c :: t) = (none, c :: t) := fun t => by
          simp only [parseExp, hc, if_false]
        rw [List.cons_append, hparse, hparse]
        rfl

theorem Stops.head?_ne {c : PyChar} (h : Stops rest)
    (hc : isDigit c = true ∨ c = ch '.' ∨ c = ch 'e' ∨ c = ch 'E') : rest.head? ≠ some c := by
  cases rest with
  | nil => nofun
  | cons d ds =>
      intro heq
      rw [List.head?_cons, Option.some.injEq] at heq
      rcases h d ds rfl with ⟨hdigit, hpoint, he, hE⟩
      rw [heq] at hdigit hpoint he hE
      rcases hc with hc | hc | hc | hc
      · rw [hc] at hdigit
        cases hdigit
      · exact hpoint hc
      · exact he hc
      · exact hE hc

theorem parseExp_nil : parseExp [] = (none, []) :=
  rfl

/-- A number that something stops is the same in a longer text. -/
theorem parseNumber_extends {negative : Bool} {v : Json}
    (h : parseNumber negative s = .ok (v, rest)) (hstop : StopsAt rest) :
    parseNumber negative (s ++ z) = .ok (v, rest ++ z) := by
  rw [parseNumber] at h
  cases hdigits : parseDigits s with
  | none => simp [hdigits] at h
  | some p =>
      rcases p with ⟨digits, afterInt⟩
      have hrest : (parseExp (parseFrac afterInt).2).2 = rest := by
        simp only [hdigits] at h
        split_ifs at h <;> exact (Prod.mk.inj (Except.ok.inj h)).2
      have hfrac : (parseFrac afterInt).2 ≠ [] := by
        intro hnil
        rw [hnil, parseExp_nil] at hrest
        exact hstop.1 hrest.symm
      have hint : afterInt ≠ [] := by
        rintro rfl
        exact hfrac rfl
      have hpoint : (parseFrac afterInt).2.head? ≠ some (ch '.') := by
        intro hhead
        rcases List.head?_eq_some_iff.1 hhead with ⟨cs, hcs⟩
        have hdot : ch '.' ≠ ch 'e' ∧ ch '.' ≠ ch 'E' := by decide
        rw [hcs] at hrest
        simp only [parseExp, hdot, or_self, if_false] at hrest
        exact hstop.2.head?_ne (Or.inr (Or.inl rfl)) (hrest ▸ rfl)
      have hletter : (parseExp (parseFrac afterInt).2).2.head? ≠ some (ch 'e') ∧
          (parseExp (parseFrac afterInt).2).2.head? ≠ some (ch 'E') := by
        rw [hrest]
        exact ⟨hstop.2.head?_ne (by simp), hstop.2.head?_ne (by simp)⟩
      have hdigits' : parseDigits (s ++ z) = some (digits, afterInt ++ z) := by
        refine parseDigits_extends ?_ digits afterInt hdigits
        intro ds rest' heq
        rw [hdigits] at heq
        cases heq
        exact hint
      simp only [hdigits] at h
      simp only [parseNumber, hdigits', parseFrac_append hint hfrac hpoint,
        parseExp_append hfrac (hrest ▸ hstop.1) hletter]
      split_ifs at h ⊢ <;>
        · rcases Prod.mk.inj (Except.ok.inj h) with ⟨hv, hr⟩
          rw [hv, hr]

/-! ## Values -/

theorem skipWs_append (h : skipWs s ≠ []) : skipWs (s ++ z) = skipWs s ++ z :=
  (takeWhile_append_of_dropWhile h).2

/-- White space and a separator or a closing bracket do not continue a number. -/
theorem stopsAt_of_skipWs {d : PyChar} {ds : PyStr} (h : skipWs rest = d :: ds)
    (hd : d = ch ',' ∨ d = ch ']' ∨ d = ch '\x7d') : StopsAt rest := by
  cases rest with
  | nil => cases h
  | cons c cs =>
      refine ⟨nofun, stops_cons ?_⟩
      cases hws : isWs c with
      | true =>
          simp only [isWs, Bool.or_eq_true, decide_eq_true_eq] at hws
          rcases hws with ((rfl | rfl) | rfl) | rfl <;> decide
      | false =>
          rw [skipWs_cons hws] at h
          cases h
          rcases hd with rfl | rfl | rfl <;> decide

/-- The longer text, read with at least the same fuel, gives the same result. -/
def ParsesExtended (depth fuel : Nat) (z : PyStr) : Prop :=
  (∀ fuel' s v rest, fuel ≤ fuel' → parseValue depth fuel s = .ok (v, rest) →
    (StopsAt rest ∨ ∃ cs, s = ch '\x7b' :: cs) → parseValue depth fuel' (s ++ z) = .ok (v, rest ++ z)) ∧
  (∀ fuel' s, fuel ≤ fuel' → ExtendsOk z (parseMembers depth fuel s) (parseMembers depth fuel' (s ++ z))) ∧
  ∀ fuel' s, fuel ≤ fuel' → ExtendsOk z (parseItems depth fuel s) (parseItems depth fuel' (s ++ z))

theorem parseValue_nil (fuel : Nat) : parseValue depth fuel [] = .error .decode := by
  cases fuel <;> rfl

theorem parseMembers_nil (fuel : Nat) : parseMembers depth fuel [] = .error .decode := by
  cases fuel <;> rfl

theorem parseItems_nil (fuel : Nat) : parseItems depth fuel [] = .error .decode := by
  cases fuel with
  | zero => rfl
  | succ fuel => rw [parseItems, parseValue_nil]

theorem skipWs_append_cons {d : PyChar} {ds : PyStr} (h : skipWs s = d :: ds) :
    skipWs (s ++ z) = d :: (ds ++ z) := by
  rw [skipWs_append (h ▸ List.cons_ne_nil d ds), h, List.cons_append]

/-- What an object is after its opening brace, given how its members are read. -/
theorem parseObject_extends {fuel fuel' : Nat} {cs : PyStr} {v : Json}
    (hmembers : ∀ s, ExtendsOk z (parseMembers (depth - 1) fuel s)
      (parseMembers (depth - 1) fuel' (s ++ z)))
    (h : parseValue depth (fuel + 1) (ch '\x7b' :: cs) = .ok (v, rest)) :
    parseValue depth (fuel' + 1) (ch '\x7b' :: (cs ++ z)) = .ok (v, rest ++ z) := by
  have hbrace : ch '\x7b' ≠ ch '"' := by decide
  rw [parseValue] at h ⊢
  simp only [hbrace, if_false, if_true] at h ⊢
  have hpos : depth ≠ 0 := by
    rintro rfl
    simp at h
  simp only [hpos, if_false] at h ⊢
  cases hskip : skipWs cs with
  | nil => simp [hskip] at h
  | cons d ds =>
      simp only [hskip, skipWs_append_cons hskip] at h ⊢
      by_cases hclose : d = ch '\x7d'
      · simp only [hclose, if_true] at h ⊢
        exact extendsOk_ok v rest h
      · simp only [hclose, if_false] at h ⊢
        cases hrun : parseMembers (depth - 1) fuel (d :: ds) with
        | error e => simp [hrun] at h
        | ok p =>
            have hrun' := hmembers (d :: ds) p.1 p.2 hrun
            rw [List.cons_append] at hrun'
            simp only [hrun] at h
            simp only [hrun']
            exact extendsOk_ok v rest h

theorem parseArray_extends {fuel fuel' : Nat} {cs : PyStr} {v : Json}
    (hitems : ∀ s, ExtendsOk z (parseItems (depth - 1) fuel s)
      (parseItems (depth - 1) fuel' (s ++ z)))
    (h : parseValue depth (fuel + 1) (ch '[' :: cs) = .ok (v, rest)) :
    parseValue depth (fuel' + 1) (ch '[' :: (cs ++ z)) = .ok (v, rest ++ z) := by
  have hbracket : ch '[' ≠ ch '"' ∧ ch '[' ≠ ch '\x7b' := by decide
  rw [parseValue] at h ⊢
  simp only [hbracket, if_false, if_true] at h ⊢
  have hpos : depth ≠ 0 := by
    rintro rfl
    simp at h
  simp only [hpos, if_false] at h ⊢
  cases hskip : skipWs cs with
  | nil => simp [hskip] at h
  | cons d ds =>
      simp only [hskip, skipWs_append_cons hskip] at h ⊢
      by_cases hclose : d = ch ']'
      · simp only [hclose, if_true] at h ⊢
        exact extendsOk_ok v rest h
      · simp only [hclose, if_false] at h ⊢
        cases hrun : parseItems (depth - 1) fuel (d :: ds) with
        | error e => simp [hrun] at h
        | ok p =>
            have hrun' := hitems (d :: ds) p.1 p.2 hrun
            rw [List.cons_append] at hrun'
            simp only [hrun] at h
            simp only [hrun']
            exact extendsOk_ok v rest h

/-- After a minus sign: the word for infinity, or a number. -/
theorem parseMinus_extends {fuel fuel' : Nat} {cs : PyStr} {v : Json}
    (h : parseValue depth (fuel + 1) (ch '-' :: cs) = .ok (v, rest)) (hstop : StopsAt rest) :
    parseValue depth (fuel' + 1) (ch '-' :: (cs ++ z)) = .ok (v, rest ++ z) := by
  have hdash : ch '-' ≠ ch '"' ∧ ch '-' ≠ ch '\x7b' ∧ ch '-' ≠ ch '[' ∧ ch '-' ≠ ch 'n' ∧
      ch '-' ≠ ch 't' ∧ ch '-' ≠ ch 'f' ∧ ch '-' ≠ ch 'N' ∧ ch '-' ≠ ch 'I' := by decide
  rw [parseValue] at h ⊢
  simp only [hdash, if_false, if_true] at h ⊢
  have hcs : cs ≠ [] := by
    rintro rfl
    cases h
  rw [List.head?_append_of_ne_nil cs hcs]
  split_ifs at h ⊢ with hinf
  · exact parseWord_extends v rest h
  · exact parseNumber_extends h hstop

/-- A value that something stops, or an object. -/
theorem parseValue_extends {fuel fuel' : Nat} {v : Json}
    (hmembers : ∀ s, ExtendsOk z (parseMembers (depth - 1) fuel s)
      (parseMembers (depth - 1) fuel' (s ++ z)))
    (hitems : ∀ s, ExtendsOk z (parseItems (depth - 1) fuel s) (parseItems (depth - 1) fuel' (s ++ z)))
    (h : parseValue depth (fuel + 1) s = .ok (v, rest))
    (hstop : StopsAt rest ∨ ∃ cs, s = ch '\x7b' :: cs) :
    parseValue depth (fuel' + 1) (s ++ z) = .ok (v, rest ++ z) := by
  cases s with
  | nil => cases h
  | cons c cs =>
      by_cases hbrace : c = ch '\x7b'
      · subst hbrace
        exact parseObject_extends hmembers h
      have hends : StopsAt rest := by
        rcases hstop with hstop | ⟨cs', heq⟩
        · exact hstop
        · exact absurd (List.cons.inj heq).1 hbrace
      by_cases hbracket : c = ch '['
      · subst hbracket
        exact parseArray_extends hitems h
      by_cases hminus : c = ch '-'
      · subst hminus
        exact parseMinus_extends h hends
      rw [List.cons_append]
      rw [parseValue] at h ⊢
      simp only [hbrace, hbracket, hminus, if_false] at h ⊢
      split_ifs at h ⊢ with hquote hn ht hf hN hI
      · cases hrun : parseStr cs with
        | none => simp [hrun] at h
        | some p =>
            simp only [hrun] at h
            simp only [parseStr_extends p.1 p.2 hrun]
            exact extendsOk_ok v rest h
      · exact parseWord_extends v rest h
      · exact parseWord_extends v rest h
      · exact parseWord_extends v rest h
      · exact parseWord_extends v rest h
      · exact parseWord_extends v rest h
      · exact parseNumber_extends h hends

/-- The next member, and the members after it. -/
theorem parseMembers_extends {fuel fuel' : Nat}
    (hvalue : ∀ s v rest, parseValue depth fuel s = .ok (v, rest) → StopsAt rest →
      parseValue depth fuel' (s ++ z) = .ok (v, rest ++ z))
    (hmembers : ∀ s, ExtendsOk z (parseMembers depth fuel s) (parseMembers depth fuel' (s ++ z))) :
    ExtendsOk z (parseMembers depth (fuel + 1) s) (parseMembers depth (fuel' + 1) (s ++ z)) := by
  intro members rest h
  cases s with
  | nil => cases h
  | cons c cs =>
      rw [List.cons_append]
      rw [parseMembers] at h ⊢
      split_ifs at h ⊢ with hquote
      cases hkey : parseStr cs with
      | none => simp [hkey] at h
      | some k =>
          simp only [hkey, parseStr_extends k.1 k.2 hkey] at h ⊢
          cases hcolon : skipWs k.2 with
          | nil => simp [hcolon] at h
          | cons d ds =>
              simp only [hcolon, skipWs_append_cons hcolon] at h ⊢
              split_ifs at h ⊢ with hd
              cases hval : parseValue depth fuel (skipWs ds) with
              | error e => simp [hval] at h
              | ok p =>
                  have hds : skipWs ds ≠ [] := by
                    intro hnil
                    rw [hnil, parseValue_nil] at hval
                    cases hval
                  cases hend : skipWs p.2 with
                  | nil => simp [hval, hend] at h
                  | cons e es =>
                      simp only [hval, hend] at h
                      have hsep : e = ch ',' ∨ e = ch ']' ∨ e = ch '\x7d' := by
                        by_contra hnot
                        simp only [not_or] at hnot
                        simp [hnot] at h
                      have hval' := hvalue _ p.1 p.2 hval (stopsAt_of_skipWs hend hsep)
                      rw [← skipWs_append hds] at hval'
                      simp only [hval', skipWs_append_cons hend]
                      split_ifs at h ⊢ with hclose hcomma
                      · exact extendsOk_ok members rest h
                      · have hes : skipWs es ≠ [] := by
                          intro hnil
                          simp [hnil, parseMembers_nil] at h
                        rw [skipWs_append hes]
                        cases hrun : parseMembers depth fuel (skipWs es) with
                        | error e => simp [hrun] at h
                        | ok q =>
                            simp only [hrun] at h
                            simp only [hmembers _ q.1 q.2 hrun]
                            exact extendsOk_ok members rest h

theorem parseItems_extends {fuel fuel' : Nat}
    (hvalue : ∀ s v rest, parseValue depth fuel s = .ok (v, rest) → StopsAt rest →
      parseValue depth fuel' (s ++ z) = .ok (v, rest ++ z))
    (hitems : ∀ s, ExtendsOk z (parseItems depth fuel s) (parseItems depth fuel' (s ++ z))) :
    ExtendsOk z (parseItems depth (fuel + 1) s) (parseItems depth (fuel' + 1) (s ++ z)) := by
  intro items rest h
  rw [parseItems] at h ⊢
  cases hval : parseValue depth fuel s with
  | error e => simp [hval] at h
  | ok p =>
      cases hend : skipWs p.2 with
      | nil => simp [hval, hend] at h
      | cons e es =>
          simp only [hval, hend] at h
          have hsep : e = ch ',' ∨ e = ch ']' ∨ e = ch '\x7d' := by
            by_contra hnot
            simp only [not_or] at hnot
            simp [hnot] at h
          simp only [hvalue s p.1 p.2 hval (stopsAt_of_skipWs hend hsep), skipWs_append_cons hend]
          split_ifs at h ⊢ with hclose hcomma
          · exact extendsOk_ok items rest h
          · have hes : skipWs es ≠ [] := by
              intro hnil
              simp [hnil, parseItems_nil] at h
            rw [skipWs_append hes]
            cases hrun : parseItems depth fuel (skipWs es) with
            | error e => simp [hrun] at h
            | ok q =>
                simp only [hrun] at h
                simp only [hitems _ q.1 q.2 hrun]
                exact extendsOk_ok items rest h

/-- The longer text, read with at least the same fuel, gives the same result. -/
theorem parse_extends {fuel : Nat} : ∀ {depth : Nat}, ParsesExtended depth fuel z := by
  induction fuel with
  | zero =>
      intro depth
      refine ⟨?_, ?_, ?_⟩
      · intro fuel' s v rest _ h
        cases h
      · exact fun _ _ _ => extendsOk_error
      · exact fun _ _ _ => extendsOk_error
  | succ fuel ih =>
      intro depth
      rcases @ih depth with ⟨hvalue, hmembers, hitems⟩
      rcases @ih (depth - 1) with ⟨-, hmembers', hitems'⟩
      refine ⟨?_, ?_, ?_⟩
      · intro fuel' s v rest hle h hstop
        obtain ⟨n, rfl⟩ : ∃ n, fuel' = n + 1 := ⟨fuel' - 1, by omega⟩
        exact parseValue_extends (fun s => hmembers' n s (by omega))
          (fun s => hitems' n s (by omega)) h hstop
      · intro fuel' s hle
        obtain ⟨n, rfl⟩ : ∃ n, fuel' = n + 1 := ⟨fuel' - 1, by omega⟩
        exact parseMembers_extends
          (fun s v rest h hstop => hvalue n s v rest (by omega) h (Or.inl hstop))
          (fun s => hmembers n s (by omega))
      · intro fuel' s hle
        obtain ⟨n, rfl⟩ : ∃ n, fuel' = n + 1 := ⟨fuel' - 1, by omega⟩
        exact parseItems_extends
          (fun s v rest h hstop => hvalue n s v rest (by omega) h (Or.inl hstop))
          (fun s => hitems n s (by omega))

/-! ## Texts of objects -/

theorem eq_of_parseWord {word : PyStr} {v w : Json} (h : parseWord word v s = .ok (w, rest)) :
    w = v := by
  rw [parseWord] at h
  split_ifs at h
  cases h
  rfl

theorem parseNumber_ne_obj {negative : Bool} {members : List (PyStr × Json)} :
    parseNumber negative s ≠ .ok (.obj members, rest) := by
  intro h
  rw [parseNumber] at h
  cases hdigits : parseDigits s with
  | none => simp [hdigits] at h
  | some p =>
      simp only [hdigits] at h
      split_ifs at h <;> cases h

/-- Only a text with an opening brace is read as an object. -/
theorem brace_of_parseValue_obj {fuel : Nat} {members : List (PyStr × Json)}
    (h : parseValue depth fuel s = .ok (.obj members, rest)) : ∃ cs, s = ch '\x7b' :: cs := by
  cases fuel with
  | zero => cases h
  | succ fuel =>
      cases s with
      | nil => cases h
      | cons c cs =>
          by_cases hbrace : c = ch '\x7b'
          · exact ⟨cs, by rw [hbrace]⟩
          rw [parseValue] at h
          simp only [hbrace, if_false] at h
          split_ifs at h
          · cases hrun : parseStr cs with
            | none => simp [hrun] at h
            | some p => simp [hrun] at h
          · -- an array
            cases hskip : skipWs cs with
            | nil => simp [hskip] at h
            | cons d ds =>
                simp only [hskip] at h
                split_ifs at h
                · cases h
                · cases hrun : parseItems (depth - 1) fuel (d :: ds) <;> simp [hrun] at h
          · cases eq_of_parseWord h
          · cases eq_of_parseWord h
          · cases eq_of_parseWord h
          · cases eq_of_parseWord h
          · cases eq_of_parseWord h
          · cases eq_of_parseWord h
          · exact absurd h parseNumber_ne_obj
          · exact absurd h parseNumber_ne_obj

theorem decode_of_loads {v : Json} (h : loads s = some v) : decode (s.length + 1) s = .ok v := by
  rw [loads] at h
  cases hdecode : decode (s.length + 1) s with
  | error e => simp [hdecode, Except.toOption] at h
  | ok w => simpa [hdecode, Except.toOption] using h

theorem parse_of_decode {v : Json} (h : decode depth s = .ok v) :
    ∃ rest, parseValue depth (s.length + 1) (skipWs s) = .ok (v, rest) ∧ skipWs rest = [] := by
  rw [decode] at h
  split_ifs at h
  cases hrun : parseValue depth (s.length + 1) (skipWs s) with
  | error e => simp [hrun] at h
  | ok p =>
      simp only [hrun] at h
      split_ifs at h with hend
      cases h
      exact ⟨p.2, rfl, hend⟩

/-- A text that goes on after the text of an object is read as JSON only if white space follows. -/
theorem isWs_of_loads_append {members : List (PyStr × Json)} {v : Json}
    (h : loads s = some (.obj members)) (h' : loads (s ++ z) = some v) : ∀ c ∈ z, isWs c = true := by
  -- both texts with the levels of the longer one
  have hdecode : decode ((s ++ z).length + 1) s = .ok (.obj members) :=
    decode_mono (decode_of_loads h) (by simp)
  rcases parse_of_decode hdecode with ⟨rest, hparse, -⟩
  rcases parse_of_decode (decode_of_loads h') with ⟨rest', hparse', hend⟩
  have hbrace := brace_of_parseValue_obj hparse
  have hskip : skipWs (s ++ z) = skipWs s ++ z := by
    refine skipWs_append ?_
    rcases hbrace with ⟨cs, hcs⟩
    rw [hcs]
    exact List.cons_ne_nil _ _
  have hlong : parseValue ((s ++ z).length + 1) ((s ++ z).length + 1) (skipWs s ++ z) =
      .ok (.obj members, rest ++ z) :=
    parse_extends.1 _ _ _ _ (by simp) hparse (Or.inr hbrace)
  rw [hskip, hlong] at hparse'
  cases hparse'
  intro c hc
  exact List.dropWhile_eq_nil_iff.1 hend c (List.mem_append_right rest hc)

example : loads (py "\x7b\x7d \n") = some (.obj []) ∧ loads (py "\x7b\x7d1") = none := by
  exact ⟨rfl, rfl⟩

end Json
end Library
end Xqueue
