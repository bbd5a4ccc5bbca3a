import Xqueue.Library.Json

/-!
# PyRepr — Python's `str()` of a decoded JSON value

`str(v)` of a string is the string itself; of every other value it is `repr(v)`, where the
strings inside a container are quoted.  Which characters above ASCII are printable is the
character database's business, so it is a parameter.
-/

namespace Xqueue
namespace Library
namespace Json

variable (isPrintable : PyChar → Bool)

/-- `\xXX`, `\uXXXX` or `\UXXXXXXXX`. -/
def reprEscape (n : Nat) : PyStr :=
  if n < 0x100 then [ch '\\', ch 'x', hexDigit (n / 16), hexDigit n]
  else if n < 0x10000 then unicodeEscape n
  else
    [ch '\\', ch 'U', ch '0', ch '0', hexDigit (n / 0x100000), hexDigit (n / 0x10000)] ++
      (unicodeEscape n).drop 2

def reprChar (quote c : PyChar) : PyStr :=
  if c = quote ∨ c = ch '\\' then [ch '\\', c]
  else if c = ch '\t' then py "\\t"
  else if c = ch '\n' then py "\\n"
  else if c = ch '\r' then py "\\r"
  else if c.val < 0x20 ∨ c.val = 0x7F then reprEscape c.val
  else if c.val < 0x7F then [c]
  else if isPrintable c then [c]
  else reprEscape c.val

/-- `repr(s)`: single quotes, unless the text has some and no double quote. -/
def reprStr (s : PyStr) : PyStr :=
  let quote := if ch '\'' ∈ s ∧ ch '"' ∉ s then ch '"' else ch '\''
  quote :: s.flatMap (reprChar isPrintable quote) ++ [quote]

mutual

def repr : Json → PyStr
  | .null => py "None"
  | .bool b => if b then py "True" else py "False"
  | .int n => PyStr.ofInt n
  | .float x => x.repr
  | .str s => reprStr isPrintable s
  | .arr [] => py "[]"
  | .arr (v :: vs) => ch '[' :: repr v ++ reprItems vs ++ [ch ']']
  | .obj [] => py "\x7b\x7d"
  | .obj (m :: ms) => ch '\x7b' :: reprMember m ++ reprMembers ms ++ [ch '\x7d']

def reprItems : List Json → PyStr
  | [] => []
  | v :: vs => py ", " ++ repr v ++ reprItems vs

def reprMember : PyStr × Json → PyStr
  | (k, v) => reprStr isPrintable k ++ py ": " ++ repr v

def reprMembers : List (PyStr × Json) → PyStr
  | [] => []
  | m :: ms => py ", " ++ reprMember m ++ reprMembers ms

end

/-- `str(v)`. -/
def pyStr : Json → PyStr
  | .str s => s
  | v => repr isPrintable v

example : pyStr (fun _ => true) (.arr [.str (py "it's"), .null, .bool true]) =
    py "[\"it's\", None, True]" := by decide

end Json
end Library
end Xqueue
