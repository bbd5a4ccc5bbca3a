import Xqueue.Library.PyFloat

/-!
# Json — Python's `json.dumps` and `json.loads`

`Json` is the type of the values `json.loads` builds; an object is the association list of a
Python `dict`, in insertion order and with distinct keys.  This file provides:

* `dumps` : the default encoder (`ensure_ascii`, separators `", "` and `": "`);
* `decode` : the default decoder, with the exceptions it raises: the text is no JSON, an integer has
  more digits than Python reads, or objects and arrays are nested deeper than the stack allows;
* `loads` : the decoder on a stack that allows for every text.

The parser runs on fuel, one unit for each nested call, and has more of it than the text is long.
-/

namespace Xqueue
namespace Library

inductive Json where
  | null
  | bool (b : Bool)
  | int (n : Int)
  | float (x : PyFloat)
  | str (s : PyStr)
  | arr (items : List Json)
  | obj (members : List (PyStr × Json))
  deriving Repr

namespace Json

/-! ## Dictionaries -/

/-- `d[k] = v` on an association list: a known key keeps its place. -/
def setItem (d : List (PyStr × Json)) (k : PyStr) (v : Json) : List (PyStr × Json) :=
  if (d.lookup k).isSome then d.map (fun m => if m.1 = k then (k, v) else m) else d ++ [(k, v)]

/-- `dict(pairs)`: later pairs win. -/
def dictOf (pairs : List (PyStr × Json)) : List (PyStr × Json) :=
  pairs.foldl (fun d m => setItem d m.1 m.2) []

/-- `d.get(k)` of a decoded object; `none` also for values that are not objects. -/
def get? (k : PyStr) : Json → Option Json
  | .obj members => members.lookup k
  | _ => none

/-- Comparison of a decoded value with a string. -/
def isStr (s : PyStr) : Json → Bool
  | .str t => s = t
  | _ => false

theorem isStr_iff {s : PyStr} {v : Json} : v.isStr s = true ↔ v = .str s := by
  cases v <;> simp [isStr, eq_comm]

/-! ## Encoding -/

def hexDigit (n : Nat) : PyChar :=
  ch (n % 16).digitChar

/-- `\uXXXX`. -/
def unicodeEscape (n : Nat) : PyStr :=
  [ch '\\', ch 'u', hexDigit (n / 4096), hexDigit (n / 256), hexDigit (n / 16), hexDigit n]

/-- The letter of the two-character escape of a character, if it has one. -/
def shortEscape? (c : PyChar) : Option PyChar :=
  if c = ch '"' then some (ch '"')
  else if c = ch '\\' then some (ch '\\')
  else if c = ch '\n' then some (ch 'n')
  else if c = ch '\r' then some (ch 'r')
  else if c = ch '\t' then some (ch 't')
  else if c = ch '\x0c' then some (ch 'f')
  else if c = ch '\x08' then some (ch 'b')
  else none

/-- One character of a string, as `ensure_ascii` writes it. -/
def escapeChar (c : PyChar) : PyStr :=
  match shortEscape? c with
  | some d => [ch '\\', d]
  | none =>
      if 0x20 ≤ c.val ∧ c.val ≤ 0x7E then [c]
      else if c.val < 0x10000 then unicodeEscape c.val
      else
        unicodeEscape (0xD800 + (c.val - 0x10000) / 0x400) ++
          unicodeEscape (0xDC00 + (c.val - 0x10000) % 0x400)

def dumpsStr (s : PyStr) : PyStr :=
  ch '"' :: s.flatMap escapeChar ++ [ch '"']

def dumpsFloat : PyFloat → PyStr
  | .nan => py "NaN"
  | .infinity negative => if negative then py "-Infinity" else py "Infinity"
  | .finite negative m e => (PyFloat.finite negative m e).repr

mutual

/-- `json.dumps(v)`. -/
def dumps : Json → PyStr
  | .null => py "null"
  | .bool b => if b then py "true" else py "false"
  | .int n => PyStr.ofInt n
  | .float x => dumpsFloat x
  | .str s => dumpsStr s
  | .arr [] => py "[]"
  | .arr (v :: vs) => ch '[' :: dumps v ++ dumpsItems vs ++ [ch ']']
  | .obj [] => py "\x7b\x7d"
  | .obj (m :: ms) => ch '\x7b' :: dumpsMember m ++ dumpsMembers ms ++ [ch '\x7d']

def dumpsItems : List Json → PyStr
  | [] => []
  | v :: vs => py ", " ++ dumps v ++ dumpsItems vs

def dumpsMember : PyStr × Json → PyStr
  | (k, v) => dumpsStr k ++ py ": " ++ dumps v

def dumpsMembers : List (PyStr × Json) → PyStr
  | [] => []
  | m :: ms => py ", " ++ dumpsMember m ++ dumpsMembers ms

end

/-! ## Decoding strings -/

def hexVal? (c : PyChar) : Option Nat :=
  if 48 ≤ c.val ∧ c.val ≤ 57 then some (c.val - 48)
  else if 65 ≤ c.val ∧ c.val ≤ 70 then some (c.val - 55)
  else if 97 ≤ c.val ∧ c.val ≤ 102 then some (c.val - 87)
  else none

/-- The character a two-character escape denotes. -/
def simpleEscape? (c : PyChar) : Option Nat :=
  if c = ch '"' then some 34
  else if c = ch '\\' then some 92
  else if c = ch '/' then some 47
  else if c = ch 'b' then some 8
  else if c = ch 'f' then some 12
  else if c = ch 'n' then some 10
  else if c = ch 'r' then some 13
  else if c = ch 't' then some 9
  else none

/-- Where the scanner of a string literal stands. -/
inductive Scan where
  | plain
  | escape
  | hex (left : Nat) (value : Nat)

/-- A scanned code unit, and whether it was written as `\uXXXX`. -/
abbrev CodeUnit : Type := Nat × Bool

def prepend (x : CodeUnit) : Option (List CodeUnit × PyStr) → Option (List CodeUnit × PyStr)
  | some (xs, rest) => some (x :: xs, rest)
  | none => none

/-- Scan a string literal after its opening quote, up to and over the closing one. -/
def scanUnits : Scan → PyStr → Option (List CodeUnit × PyStr)
  | _, [] => none
  | .plain, c :: cs =>
      if c = ch '"' then some ([], cs)
      else if c = ch '\\' then scanUnits .escape cs
      else if c.val < 0x20 then none
      else prepend (c.val, false) (scanUnits .plain cs)
  | .escape, c :: cs =>
      if c = ch 'u' then scanUnits (.hex 3 0) cs
      else
        match simpleEscape? c with
        | some n => prepend (n, false) (scanUnits .plain cs)
        | none => none
  | .hex left value, c :: cs =>
      match hexVal? c with
      | none => none
      | some d =>
          match left with
          | 0 => prepend (16 * value + d, true) (scanUnits .plain cs)
          | left + 1 => scanUnits (.hex left (16 * value + d)) cs

def isHigh (n : Nat) : Bool :=
  0xD800 ≤ n && n ≤ 0xDBFF

def isLow (n : Nat) : Bool :=
  0xDC00 ≤ n && n ≤ 0xDFFF

def codePoint (n : Nat) : PyChar :=
  if h : n < 0x110000 then ⟨n, h⟩ else 0

/-- Join an escaped high surrogate with the escaped low surrogate that follows it. -/
def joinUnits : List CodeUnit → PyStr
  | [] => []
  | [x] => [codePoint x.1]
  | x :: y :: rest =>
      if x.2 && y.2 && isHigh x.1 && isLow y.1 then
        codePoint (0x10000 + (x.1 - 0xD800) * 0x400 + (y.1 - 0xDC00)) :: joinUnits rest
      else codePoint x.1 :: joinUnits (y :: rest)

def parseStr (s : PyStr) : Option (PyStr × PyStr) :=
  match scanUnits .plain s with
  | some (units, rest) => some (joinUnits units, rest)
  | none => none

/-! ## Decoding numbers -/

/-- The fraction `.digits` of a number, and what follows it. -/
def parseFrac (s : PyStr) : PyStr × PyStr :=
  match s with
  | c :: cs =>
      if c = ch '.' ∧ cs.takeWhile PyStr.isDigit ≠ [] then
        (cs.takeWhile PyStr.isDigit, cs.dropWhile PyStr.isDigit)
      else ([], s)
  | [] => ([], s)

/-- The exponent `e±digits` of a number, and what follows it. -/
def parseExp (s : PyStr) : Option Int × PyStr :=
  match s with
  | c :: cs =>
      if c = ch 'e' ∨ c = ch 'E' then
        let negative := cs.head? = some (ch '-')
        let digits := if cs.head? = some (ch '-') ∨ cs.head? = some (ch '+') then cs.tail else cs
        if digits.takeWhile PyStr.isDigit = [] then (none, s)
        else
          let n : Int := PyStr.digitsValue (digits.takeWhile PyStr.isDigit)
          (some (if negative then -n else n), digits.dropWhile PyStr.isDigit)
      else (none, s)
  | [] => (none, s)

/-- The integer part of a number: a zero, or digits that do not start with one. -/
def parseDigits (s : PyStr) : Option (PyStr × PyStr) :=
  match s with
  | c :: cs =>
      if c = ch '0' then some ([c], cs)
      else if PyStr.isDigit c then
        some (c :: cs.takeWhile PyStr.isDigit, cs.dropWhile PyStr.isDigit)
      else none
  | [] => none

/-- Why `json.loads` raises: `JSONDecodeError`, the `ValueError` of an integer with too many digits,
and the `RecursionError` of an object or an array nested too deep. -/
inductive LoadsError where
  | decode
  | digits
  | depth
  deriving DecidableEq, Repr

/-- What a parser returns: its value and the rest of the text. -/
abbrev Parsed (α : Type) : Type :=
  Except LoadsError (α × PyStr)

def parseNumber (negative : Bool) (s : PyStr) : Parsed Json :=
  match parseDigits s with
  | none => .error .decode
  | some (digits, afterInt) =>
      let (frac, afterFrac) := parseFrac afterInt
      let (exp, rest) := parseExp afterFrac
      if frac = [] ∧ exp = none then
        if PyStr.maxStrDigits < digits.length then .error .digits
        else
          let n : Int := PyStr.digitsValue digits
          .ok (.int (if negative then -n else n), rest)
      else
        .ok (.float (PyFloat.ofDecimal negative (PyStr.digitsValue (digits ++ frac))
          (exp.getD 0 - frac.length)), rest)

/-! ## Decoding values -/

def isWs (c : PyChar) : Bool :=
  c = ch ' ' || c = ch '\t' || c = ch '\n' || c = ch '\r'

def skipWs (s : PyStr) : PyStr :=
  s.dropWhile isWs

/-- Read a fixed word. -/
def parseWord (word : PyStr) (v : Json) (s : PyStr) : Parsed Json :=
  if word.isPrefixOf s then .ok (v, s.drop word.length) else .error .decode

mutual

/-- `scan_once`: one value at the head of the text.  Every object and every array takes one level of
the stack, whatever is in it. -/
def parseValue (depth : Nat) : Nat → PyStr → Parsed Json
  | 0, _ => .error .decode
  | _ + 1, [] => .error .decode
  | fuel + 1, c :: cs =>
      if c = ch '"' then
        match parseStr cs with
        | some (s, rest) => .ok (.str s, rest)
        | none => .error .decode
      else if c = ch '\x7b' then
        if depth = 0 then .error .depth
        else
          match skipWs cs with
          | [] => .error .decode
          | d :: ds =>
              if d = ch '\x7d' then .ok (.obj [], ds)
              else
                match parseMembers (depth - 1) fuel (d :: ds) with
                | .ok (members, rest) => .ok (.obj (dictOf members), rest)
                | .error e => .error e
      else if c = ch '[' then
        if depth = 0 then .error .depth
        else
          match skipWs cs with
          | [] => .error .decode
          | d :: ds =>
              if d = ch ']' then .ok (.arr [], ds)
              else
                match parseItems (depth - 1) fuel (d :: ds) with
                | .ok (items, rest) => .ok (.arr items, rest)
                | .error e => .error e
      else if c = ch 'n' then parseWord (py "null") .null (c :: cs)
      else if c = ch 't' then parseWord (py "true") (.bool true) (c :: cs)
      else if c = ch 'f' then parseWord (py "false") (.bool false) (c :: cs)
      else if c = ch 'N' then parseWord (py "NaN") (.float .nan) (c :: cs)
      else if c = ch 'I' then parseWord (py "Infinity") (.float (.infinity false)) (c :: cs)
      else if c = ch '-' then
        if cs.head? = some (ch 'I') then
          parseWord (py "-Infinity") (.float (.infinity true)) (c :: cs)
        else parseNumber true cs
      else parseNumber false (c :: cs)

/-- The members of a non-empty object, over the closing brace. -/
def parseMembers (depth : Nat) : Nat → PyStr → Parsed (List (PyStr × Json))
  | 0, _ => .error .decode
  | _ + 1, [] => .error .decode
  | fuel + 1, c :: cs =>
      if c ≠ ch '"' then .error .decode
      else
        match parseStr cs with
        | none => .error .decode
        | some (k, afterKey) =>
            match skipWs afterKey with
            | [] => .error .decode
            | d :: ds =>
                if d ≠ ch ':' then .error .decode
                else
                  match parseValue depth fuel (skipWs ds) with
                  | .error e => .error e
                  | .ok (v, afterValue) =>
                      match skipWs afterValue with
                      | [] => .error .decode
                      | e :: es =>
                          if e = ch '\x7d' then .ok ([(k, v)], es)
                          else if e = ch ',' then
                            match parseMembers depth fuel (skipWs es) with
                            | .ok (members, rest) => .ok ((k, v) :: members, rest)
                            | .error e => .error e
                          else .error .decode

/-- The items of a non-empty array, over the closing bracket. -/
def parseItems (depth : Nat) : Nat → PyStr → Parsed (List Json)
  | 0, _ => .error .decode
  | fuel + 1, s =>
      match parseValue depth fuel s with
      | .error e => .error e
      | .ok (v, afterValue) =>
          match skipWs afterValue with
          | [] => .error .decode
          | d :: ds =>
              if d = ch ']' then .ok ([v], ds)
              else if d = ch ',' then
                match parseItems depth fuel (skipWs ds) with
                | .ok (items, rest) => .ok (v :: items, rest)
                | .error e => .error e
              else .error .decode

end

/-- `json.loads(s)`, where objects and arrays can be nested `depth` levels deep; a text that starts
with a byte order mark is refused. -/
def decode (depth : Nat) (s : PyStr) : Except LoadsError Json :=
  if s.head? = some ⟨0xFEFF, by decide⟩ then .error .decode
  else
    match parseValue depth (s.length + 1) (skipWs s) with
    | .ok (v, rest) => if skipWs rest = [] then .ok v else .error .decode
    | .error e => .error e

/-- `json.loads(s)` with more levels than the text is long; `none` where it raises `ValueError`. -/
def loads (s : PyStr) : Option Json :=
  (decode (s.length + 1) s).toOption

end Json

end Library
end Xqueue
