/-
  Procurement.Framework.Json
  ──────────────────────────
  **JSON TEXTS.**

  `render` writes a value in a style: blanks behind the separators or none,
  characters outside ASCII escaped or kept.  `parse` reads any JSON text, blanks
  anywhere, escapes in every form.

  `JsonTexts` proves that `parse` reads back what `render` writes.

  Numbers are what programs print: integers, and decimals with a point.  A text
  with an exponent is not read.  A surrogate without its partner is no character,
  so it is not read either.
-/
import Mathlib.Data.List.Basic

namespace Procurement.Framework

/-! ## §1. Values. -/

/-- A number with a point: sign, whole part, and the digits behind the point. -/
structure Decimal where
  negative : Bool
  whole : Nat
  fraction : List (Fin 10)
  fraction_ne : fraction ≠ []
  deriving DecidableEq

/-- The number it denotes. -/
def Decimal.value (d : Decimal) : Rat :=
  let magnitude := d.whole + d.fraction.foldr (fun (k : Fin 10) (q : Rat) => (k.val + q) / 10) 0
  if d.negative then -magnitude else magnitude

/-- A JSON value; an object lists its members in order. -/
inductive Json where
  | null
  | bool (b : Bool)
  | int (i : Int)
  | float (d : Decimal)
  | str (s : String)
  | arr (items : List Json)
  | obj (members : List (String × Json))

namespace Json

/-- Induction over values: an array follows from its items, an object from the
values of its members. -/
@[elab_as_elim]
theorem induct {P : Json → Prop} (null : P .null) (bool : ∀ b, P (.bool b)) (int : ∀ i, P (.int i))
    (float : ∀ d, P (.float d)) (str : ∀ s, P (.str s))
    (arr : ∀ items, (∀ v ∈ items, P v) → P (.arr items))
    (obj : ∀ members : List (String × Json), (∀ m ∈ members, P m.2) → P (.obj members))
    (v : Json) : P v := by
  refine @Json.rec P (fun items => ∀ v ∈ items, P v) (fun members => ∀ m ∈ members, P m.2)
    (fun m => P m.2) null bool int float str arr obj ?_ ?_ ?_ ?_ ?_ v
  · exact fun w hw => absurd hw List.not_mem_nil
  · intro w ws hw hws u hu
    rcases List.mem_cons.mp hu with rfl | hu
    · exact hw
    · exact hws u hu
  · exact fun m hm => absurd hm List.not_mem_nil
  · intro m ms hm hms u hu
    rcases List.mem_cons.mp hu with rfl | hu
    · exact hm
    · exact hms u hu
  · exact fun k w hw => hw

/-- The member of that name; of several the last one, as readers of objects do. -/
def get (v : Json) (key : String) : Option Json :=
  match v with
  | .obj members => members.reverse.lookup key
  | _ => none

/-! ## §2. Writing. -/

/-- `ascii`: escape every character outside ASCII; `spaced`: a blank behind
commas and colons. -/
structure Style where
  ascii : Bool
  spaced : Bool

def Style.gap (st : Style) : List Char := if st.spaced then [' '] else []

/-- Four hexadecimal digits. -/
def hex4 (n : Nat) : List Char :=
  [n / 4096 % 16, n / 256 % 16, n / 16 % 16, n % 16].map Nat.digitChar

/-- The escape of one UTF-16 unit. -/
def unicodeEscape (n : Nat) : List Char := '\\' :: 'u' :: hex4 n

/-- The characters with an escape of two characters. -/
def shortEscapes : List (Char × Char) :=
  [('"', '"'), ('\\', '\\'), ('\n', 'n'), ('\r', 'r'), ('\t', 't'), (Char.ofNat 8, 'b'),
   (Char.ofNat 12, 'f')]

def escapeChar (st : Style) (c : Char) : List Char :=
  match List.lookup c shortEscapes with
  | some d => ['\\', d]
  | none =>
      if c.toNat < 32 then unicodeEscape c.toNat
      else if st.ascii ∧ 126 < c.toNat then
        if c.toNat < 0x10000 then unicodeEscape c.toNat
        else -- a surrogate pair
          unicodeEscape (0xD800 + (c.toNat - 0x10000) / 1024)
            ++ unicodeEscape (0xDC00 + (c.toNat - 0x10000) % 1024)
      else [c]

def escape (st : Style) (cs : List Char) : List Char := cs.flatMap (escapeChar st)

def quote (st : Style) (s : String) : List Char := '"' :: escape st s.toList ++ ['"']

def sign (negative : Bool) : List Char := if negative then ['-'] else []

def renderInt (i : Int) : List Char := sign (i < 0) ++ Nat.toDigits 10 i.natAbs

def renderFloat (d : Decimal) : List Char :=
  sign d.negative ++ Nat.toDigits 10 d.whole ++ '.' :: d.fraction.map fun k => Nat.digitChar k.val

mutual

def render (st : Style) : Json → List Char
  | .null => ['n', 'u', 'l', 'l']
  | .bool true => ['t', 'r', 'u', 'e']
  | .bool false => ['f', 'a', 'l', 's', 'e']
  | .int i => renderInt i
  | .float d => renderFloat d
  | .str s => quote st s
  | .arr items => '[' :: renderItems st items
  | .obj members => '{' :: renderMembers st members

/-- The items, and the closing bracket. -/
def renderItems (st : Style) : List Json → List Char
  | [] => [']']
  | [v] => render st v ++ [']']
  | v :: vs => render st v ++ ',' :: st.gap ++ renderItems st vs

/-- The members, and the closing brace. -/
def renderMembers (st : Style) : List (String × Json) → List Char
  | [] => ['}']
  | [(k, v)] => quote st k ++ ':' :: st.gap ++ render st v ++ ['}']
  | (k, v) :: ms =>
      quote st k ++ ':' :: st.gap ++ render st v ++ ',' :: st.gap ++ renderMembers st ms

end

/-! ## §3. Reading. -/

def isBlank (c : Char) : Bool := c = ' ' || c = '\t' || c = '\n' || c = '\r'

def skip (s : List Char) : List Char := s.dropWhile isBlank

def hexValue (c : Char) : Option Nat :=
  if '0' ≤ c ∧ c ≤ '9' then some (c.toNat - 48)
  else if 'a' ≤ c ∧ c ≤ 'f' then some (c.toNat - 87)
  else if 'A' ≤ c ∧ c ≤ 'F' then some (c.toNat - 55)
  else none

/-- One UTF-16 unit. -/
def unit : List Char → Option (Nat × List Char)
  | a :: b :: c :: d :: s => do
      let a ← hexValue a
      let b ← hexValue b
      let c ← hexValue c
      let d ← hexValue d
      some (4096 * a + 256 * b + 16 * c + d, s)
  | _ => none

/-- The character behind `\u`: one unit, or a pair of surrogates. -/
def unicode (s : List Char) : Option (Char × List Char) := do
  let (u, s) ← unit s
  if 0xD800 ≤ u ∧ u < 0xDC00 then
    match s with
    | '\\' :: 'u' :: s => do
        let (v, s) ← unit s
        if 0xDC00 ≤ v ∧ v < 0xE000 then
          some (Char.ofNat (0x10000 + (u - 0xD800) * 1024 + (v - 0xDC00)), s)
        else none
    | _ => none
  else if 0xDC00 ≤ u ∧ u < 0xE000 then none
  else some (Char.ofNat u, s)

/-- The character behind a backslash; a slash may be escaped too. -/
def unescape (d : Char) : Option Char :=
  List.lookup d (('/', '/') :: shortEscapes.map Prod.swap)

/-- The next character of a string. -/
def character : List Char → Option (Char × List Char)
  | '\\' :: 'u' :: s => unicode s
  | '\\' :: d :: s => (unescape d).map fun c => (c, s)
  | ['\\'] => none
  | c :: s => if c.toNat < 32 then none else some (c, s)
  | [] => none

/-- The characters up to the closing quote. -/
def characters : Nat → List Char → Option (List Char × List Char)
  | 0, _ => none
  | _ + 1, '"' :: s => some ([], s)
  | n + 1, s => do
      let (c, s) ← character s
      let (cs, s) ← characters n s
      some (c :: cs, s)

/-- A string behind its opening quote. -/
def string (s : List Char) : Option (String × List Char) :=
  (characters (s.length + 1) s).map fun r => (String.ofList r.1, r.2)

/-- A whole part: no zeros in front. -/
def whole : List Char → Option (Nat × List Char)
  | '0' :: s => some (0, s)
  | s =>
      match s.takeWhile Char.isDigit with
      | [] => none
      | ds => some (Nat.ofDigitChars 10 ds 0, s.dropWhile Char.isDigit)

def digit (c : Char) : Option (Fin 10) :=
  if h : c.toNat - 48 < 10 then some ⟨c.toNat - 48, h⟩ else none

/-- A number: a whole part, and maybe a fraction. -/
def number (negative : Bool) (s : List Char) : Option (Json × List Char) := do
  let (n, s) ← whole s
  match s with
  | '.' :: s => do
      let fraction := (s.takeWhile Char.isDigit).filterMap digit
      if h : fraction ≠ [] then
        some (.float ⟨negative, n, fraction, h⟩, s.dropWhile Char.isDigit)
      else none
  | s => some (.int (if negative then -n else n), s)

mutual

/-- A value, and what follows it; the number bounds the depth of the search. -/
def value : Nat → List Char → Option (Json × List Char)
  | 0, _ => none
  | n + 1, s =>
      match skip s with
      | 'n' :: 'u' :: 'l' :: 'l' :: s => some (.null, s)
      | 't' :: 'r' :: 'u' :: 'e' :: s => some (.bool true, s)
      | 'f' :: 'a' :: 'l' :: 's' :: 'e' :: s => some (.bool false, s)
      | '"' :: s => (string s).map fun r => (.str r.1, r.2)
      | '-' :: s => number true s
      | '[' :: s =>
          match skip s with
          | ']' :: s => some (.arr [], s)
          | s => (items n s).map fun r => (.arr r.1, r.2)
      | '{' :: s =>
          match skip s with
          | '}' :: s => some (.obj [], s)
          | s => (members n s).map fun r => (.obj r.1, r.2)
      | s => number false s

/-- The items up to the closing bracket. -/
def items : Nat → List Char → Option (List Json × List Char)
  | 0, _ => none
  | n + 1, s => do
      let (v, s) ← value n s
      match skip s with
      | ']' :: s => some ([v], s)
      | ',' :: s => do
          let (vs, s) ← items n s
          some (v :: vs, s)
      | _ => none

/-- The members up to the closing brace. -/
def members : Nat → List Char → Option (List (String × Json) × List Char)
  | 0, _ => none
  | n + 1, s =>
      match skip s with
      | '"' :: s => do
          let (k, s) ← string s
          match skip s with
          | ':' :: s => do
              let (v, s) ← value n s
              match skip s with
              | '}' :: s => some ([(k, v)], s)
              | ',' :: s => do
                  let (ms, s) ← members n s
                  some ((k, v) :: ms, s)
              | _ => none
          | _ => none
      | _ => none

end

/-- A text that is one value. -/
def parse (s : List Char) : Option Json := do
  let (v, rest) ← value (s.length + 1) s
  if skip rest = [] then some v else none

end Json

end Procurement.Framework
