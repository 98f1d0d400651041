import Corrlog.Python.Number
import Corrlog.Python.Same

/-!
# `json.loads`

The decoder works on texts, lists of characters: every text the code decodes
was read from UTF-8 and has no surrogates.  A string literal may still denote
surrogates, through `\u` escapes.

A `Decoder` holds the two hooks the code sets.  `scanOnce` reads one value and
returns what is left.  It recurses on fuel, of which `loads` gives more than it
can use (`scanOnce_fuel`).  A failure is `none`: every exception of the decoder
is a `ValueError`.
-/

namespace Python

/-! ## Characters -/

/-- JSON white space. -/
def isWs (c : Char) : Bool := c = ' ' || c = '\t' || c = '\n' || c = '\r'

/-- No separator, as in canonical JSON. -/
theorem isWs_nil : ∀ c ∈ ([] : List Char), isWs c = true := fun _ h => absurd h List.not_mem_nil

/-- The default separator of `json.dumps`. -/
theorem isWs_space : ∀ c ∈ [' '], isWs c = true := List.forall_mem_singleton.mpr rfl

/-- `s` after the white space it starts with. -/
def skipWs (s : List Char) : List Char := s.dropWhile isWs

/-- The text after the character `c`. -/
def expect (c : Char) : List Char → Option (List Char)
  | [] => none
  | x :: s => if x = c then some s else none

/-- `sep.join(parts)`. -/
def join (sep : List Char) : List (List Char) → List Char
  | [] => []
  | [t] => t
  | t :: t' :: ts => t ++ (sep ++ join sep (t' :: ts))

/-! ## Strings -/

/-- One character or one `\u` escape of a string literal. -/
inductive StrUnit where
  | char (c : Char)
  | escape (u : ℕ)
deriving DecidableEq

/-- The value of a hexadecimal digit. -/
def hexVal (c : Char) : Option ℕ :=
  if c.isDigit then some (c.toNat - 48)
  else if 97 ≤ c.toNat ∧ c.toNat ≤ 102 then some (c.toNat - 87)
  else if 65 ≤ c.toNat ∧ c.toNat ≤ 70 then some (c.toNat - 55)
  else none

/-- The value of four hexadecimal digits. -/
def hex4 (a b c d : Char) : Option ℕ := do
  let a ← hexVal a
  let b ← hexVal b
  let c ← hexVal c
  let d ← hexVal d
  return ((a * 16 + b) * 16 + c) * 16 + d

/-- The character a two-character escape stands for. -/
def unescape (c : Char) : Option Char :=
  if c = '"' then some '"'
  else if c = '\\' then some '\\'
  else if c = '/' then some '/'
  else if c = 'b' then some '\x08'
  else if c = 'f' then some '\x0c'
  else if c = 'n' then some '\n'
  else if c = 'r' then some '\r'
  else if c = 't' then some '\t'
  else none

/-- A unit in front of what is read of a string. -/
def consUnit (u : StrUnit) (p : List StrUnit × List Char) : List StrUnit × List Char :=
  (u :: p.1, p.2)

/-- The units up to the closing quote.  A control character must be escaped. -/
def scanUnits : List Char → Option (List StrUnit × List Char)
  | [] => none
  | x :: s =>
      if x = '"' then some ([], s)
      else if x = '\\' then
        match s with
        | [] => none
        | e :: s =>
            if e = 'u' then
              match s with
              | a :: b :: c :: d :: s =>
                  (hex4 a b c d).bind fun u => (scanUnits s).map (consUnit (.escape u))
              | _ => none
            else (unescape e).bind fun y => (scanUnits s).map (consUnit (.char y))
      else if x.toNat < 0x20 then none
      else (scanUnits s).map (consUnit (.char x))

/-- The first half of a surrogate pair. -/
def isHigh (u : ℕ) : Bool := decide (0xD800 ≤ u ∧ u < 0xDC00)

/-- The second half of a surrogate pair. -/
def isLow (u : ℕ) : Bool := decide (0xDC00 ≤ u ∧ u < 0xE000)

/-- The astral code point a surrogate pair spells. -/
def joinPair (hi lo : ℕ) : CodePoint := chr (0x10000 + (hi - 0xD800) * 1024 + (lo - 0xDC00))

/-- The units as code points.  An escaped high surrogate directly before an
escaped low one is joined with it. -/
def joinPairs : List StrUnit → PyStr
  | [] => []
  | .char c :: us => .scalar c :: joinPairs us
  | .escape u :: .escape w :: us =>
      if isHigh u && isLow w then joinPair u w :: joinPairs us
      else chr u :: joinPairs (.escape w :: us)
  | .escape u :: us => chr u :: joinPairs us

/-- The string after its opening quote. -/
def scanString (s : List Char) : Option (PyStr × List Char) :=
  (scanUnits s).map fun p => (joinPairs p.1, p.2)

/-! ## Numbers -/

/-- The integer part. -/
def scanInt : List Char → Option (List Char × List Char)
  | [] => none
  | c :: s =>
      if c = '0' then some (['0'], s)
      else if c.isDigit then some (c :: s.takeWhile Char.isDigit, s.dropWhile Char.isDigit)
      else none

/-- The fraction, empty if no digit follows a point. -/
def scanFrac (s : List Char) : List Char × List Char :=
  match s with
  | x :: c :: s' =>
      if x = '.' ∧ c.isDigit then
        (c :: s'.takeWhile Char.isDigit, s'.dropWhile Char.isDigit)
      else ([], s)
  | _ => ([], s)

/-- The sign of an exponent. -/
def scanSign : List Char → Bool × List Char
  | [] => (false, [])
  | c :: s => if c = '-' then (true, s) else if c = '+' then (false, s) else (false, c :: s)

/-- The exponent, absent if no digit follows. -/
def scanExp (s : List Char) : Option (Bool × List Char) × List Char :=
  match s with
  | [] => (none, [])
  | c :: s' =>
      let (neg, t) := scanSign s'
      if (c = 'e' ∨ c = 'E') ∧ t.takeWhile Char.isDigit ≠ [] then
        (some (neg, t.takeWhile Char.isDigit), t.dropWhile Char.isDigit)
      else (none, s)

/-- The longest integer literal that `int` converts. -/
def intMaxStrDigits : ℕ := 4300

/-- The value of a literal: a `float` if it has a fraction or an exponent. -/
def litValue (l : NumLit) : Option PyValue :=
  if l.fp = [] ∧ l.ex = none then
    if l.ip.length ≤ intMaxStrDigits then
      some (.int (if l.neg then -(Nat.ofDigitChars 10 l.ip 0 : ℤ) else Nat.ofDigitChars 10 l.ip 0))
    else none
  else some (.float l.double)

/-- A literal without its sign. -/
def scanBody (neg : Bool) (s : List Char) : Option (NumLit × List Char) :=
  (scanInt s).map fun p =>
    let q := scanFrac p.2
    let e := scanExp q.2
    (⟨neg, p.1, q.1, e.1⟩, e.2)

/-- The literal at the start of the text. -/
def scanLit (s : List Char) : Option (NumLit × List Char) :=
  if s.head? = some '-' then scanBody true s.tail else scanBody false s

/-- A number at the start of `s`, an integer or a float. -/
def scanNumber (s : List Char) : Option (PyValue × List Char) :=
  (scanLit s).bind fun p => (litValue p.1).map fun v => (v, p.2)

/-! ## Values -/

/-- The hooks of a decoder: what it makes of the members of an object, in order,
and of the constants `NaN`, `Infinity` and `-Infinity`. -/
structure Decoder where
  object : List (PyStr × PyValue) → Option PyValue
  constant : Binary64 → Option PyValue

/-- `json.loads` without hooks: a later member overrides an earlier one. -/
def Decoder.default : Decoder where
  object pairs := some (.dict (pairs.foldl (fun d kv => setKey (.str kv.1) kv.2 d) []))
  constant x := some (.float x)

/-- The names and what they stand for. -/
def names (D : Decoder) : List (List Char × Option PyValue) :=
  [(['n', 'u', 'l', 'l'], some .none),
    (['t', 'r', 'u', 'e'], some (.bool true)),
    (['f', 'a', 'l', 's', 'e'], some (.bool false)),
    (['N', 'a', 'N'], D.constant .nan),
    (['I', 'n', 'f', 'i', 'n', 'i', 't', 'y'], D.constant (.inf false)),
    (['-', 'I', 'n', 'f', 'i', 'n', 'i', 't', 'y'], D.constant (.inf true))]

/-- A name or a number. -/
def scanToken (D : Decoder) (s : List Char) : Option (PyValue × List Char) :=
  match (names D).find? fun n => n.1.isPrefixOf s with
  | some n => n.2.map fun v => (v, s.drop n.1.length)
  | none => scanNumber s

mutual

/-- One value, and what is left. -/
def scanOnce (D : Decoder) : ℕ → List Char → Option (PyValue × List Char)
  | 0, _ => none
  | _ + 1, [] => none
  | f + 1, c :: s =>
      if c = '"' then (scanString s).map fun p => (.str p.1, p.2)
      else if c = '{' then
        if (skipWs s).head? = some '}' then
          (D.object []).map fun v => (v, (skipWs s).tail)
        else
          (parseMembers D f (skipWs s)).bind fun p => (D.object p.1).map fun v => (v, p.2)
      else if c = '[' then
        if (skipWs s).head? = some ']' then some (.list [], (skipWs s).tail)
        else (parseElements D f (skipWs s)).map fun p => (.list p.1, p.2)
      else scanToken D (c :: s)

/-- The members of an object up to its closing brace. -/
def parseMembers (D : Decoder) : ℕ → List Char → Option (List (PyStr × PyValue) × List Char)
  | 0, _ => none
  | f + 1, s =>
      (expect '"' s).bind fun s => (scanString s).bind fun k =>
      (expect ':' (skipWs k.2)).bind fun s => (scanOnce D f (skipWs s)).bind fun v =>
        if (skipWs v.2).head? = some '}' then some ([(k.1, v.1)], (skipWs v.2).tail)
        else
          (expect ',' (skipWs v.2)).bind fun s =>
          (parseMembers D f (skipWs s)).map fun p => ((k.1, v.1) :: p.1, p.2)

/-- The elements of an array up to its closing bracket. -/
def parseElements (D : Decoder) : ℕ → List Char → Option (List PyValue × List Char)
  | 0, _ => none
  | f + 1, s =>
      (scanOnce D f s).bind fun v =>
        if (skipWs v.2).head? = some ']' then some ([v.1], (skipWs v.2).tail)
        else
          (expect ',' (skipWs v.2)).bind fun s =>
          (parseElements D f (skipWs s)).map fun p => (v.1 :: p.1, p.2)

end

/-- `json.loads(s)`: one value, with white space around it and nothing else.  A
byte order mark is refused. -/
def loads (D : Decoder) (s : List Char) : Option PyValue :=
  if s.head? = some '\uFEFF' then none
  else
    (scanOnce D (s.length + 1) (skipWs s)).bind fun p =>
      if skipWs p.2 = [] then some p.1 else none

end Python
