import TektonPipeline.Library.Text

/-! The JSON text of flat objects, whose fields are strings and whole numbers. -/

namespace TektonPipeline.JsonText
open List

inductive Scalar where
  | text (s : String)
  | number (n : Int)
  deriving DecidableEq

abbrev Fields := List (String × Scalar)

def shortEscapes : List (Char × Char) :=
  [('"', '"'), ('\\', '\\'), ('\x08', 'b'), ('\x0c', 'f'), ('\n', 'n'), ('\r', 'r'), ('\t', 't')]

def hexEscape (n : Nat) : List Char :=
  ['\\', 'u', Nat.digitChar (n / 4096), Nat.digitChar (n / 256 % 16), Nat.digitChar (n / 16 % 16),
    Nat.digitChar (n % 16)]

/-- What has a meaning in HTML or ends a line of JavaScript is escaped too. -/
def escape (c : Char) : List Char :=
  match shortEscapes.lookup c with
  | some short => ['\\', short]
  | none =>
    if c.toNat < 32 ∨ c ∈ ['<', '>', '&', '\u2028', '\u2029'] then hexEscape c.toNat else [c]

def quote (s : String) : List Char := '"' :: s.toList.flatMap escape ++ ['"']

def Scalar.write : Scalar → List Char
  | .text s => quote s
  | .number n => (toString n).toList

/-- What stands between the braces of an object. -/
def writeFields (fields : Fields) : List Char :=
  [','].intercalate (fields.map fun f => quote f.1 ++ ':' :: f.2.write)

/-- Texts between commas. -/
def writeItems {α : Type} (write : α → List Char) (close : Char) : List α → List Char
  | [] => [close]
  | [a] => write a ++ [close]
  | a :: b :: l => write a ++ ',' :: writeItems write close (b :: l)

/-! ## Reading -/

def hexDigit (c : Char) : Option Nat := (range 16).find? fun n => Nat.digitChar n = c.toLower

def readEscape : List Char → Option (Char × List Char)
  | 'u' :: a :: b :: c :: d :: rest => do
    let digits ← [a, b, c, d].mapM hexDigit
    some (Char.ofNat (digits.foldl (fun n digit => 16 * n + digit) 0), rest)
  | c :: rest => ((('/', '/') :: shortEscapes).find? fun e => e.2 = c).map fun e => (e.1, rest)
  | [] => none

/-- The rest of a string behind its opening quote. -/
def readText : Nat → List Char → Option (List Char × List Char)
  | n + 1, c :: rest =>
    if c = '"' then some ([], rest)
    else do
      let (c, rest) ← if c = '\\' then readEscape rest
        else if c.toNat < 32 then none else some (c, rest)
      let (s, rest) ← readText n rest
      some (c :: s, rest)
  | _, _ => none

def readNumber (s : List Char) : Option (Int × List Char) :=
  let digits := (if s.head? = some '-' then s.tail else s).takeWhile Char.isDigit
  if digits = [] then none
  else
    let n : Int := Nat.ofDigitChars 10 digits 0
    if s.head? = some '-' then some (-n, s.drop (digits.length + 1))
    else some (n, s.drop digits.length)

def readString : List Char → Option (String × List Char)
  | '"' :: rest => (readText rest.length rest).map fun r => (String.ofList r.1, r.2)
  | _ => none

def blank (c : Char) : Bool := c = ' ' || c = '\n' || c = '\t' || c = '\r'

def skip (s : List Char) : List Char := s.dropWhile blank

def readField (s : List Char) : Option ((String × Scalar) × List Char) := do
  let (name, s) ← readString (skip s)
  match skip s with
  | ':' :: s =>
    match readString (skip s) with
    | some (text, s) => some ((name, .text text), s)
    | none => (readNumber (skip s)).map fun r => ((name, .number r.1), r.2)
  | _ => none

/-- Items between commas, and what closes them. -/
def readItems {α : Type} (item : List Char → Option (α × List Char)) (close : Char) :
    Nat → List Char → Option (List α × List Char)
  | 0, _ => none
  | n + 1, s => do
    let (x, s) ← item s
    match skip s with
    | ',' :: s => (readItems item close n s).map fun r => (x :: r.1, r.2)
    | c :: s => if c = close then some ([x], s) else none
    | [] => none

def readBetween {α : Type} (item : List Char → Option (α × List Char)) (opening closing : Char)
    (s : List Char) : Option (List α × List Char) :=
  match skip s with
  | c :: s =>
    if c ≠ opening then none
    else if (skip s).head? = some closing then some ([], (skip s).tail)
    else readItems item closing s.length s
  | [] => none

def readObject : List Char → Option (Fields × List Char) := readBetween readField '\x7b' '\x7d'

def readObjects (s : List Char) : Option (List Fields × List Char) :=
  if (skip s).take 4 = "null".toList then some ([], (skip s).drop 4)
  else readBetween readObject '[' ']' s

/-- A whole text. -/
def decode {α : Type} (read : List Char → Option (α × List Char)) (bytes : List UInt8) :
    Option α := do
  let s ← String.fromUTF8? ⟨bytes.toArray⟩
  let (x, rest) ← read s.toList
  if skip rest = [] then some x else none

/-- Of fields with one name the last. -/
def Fields.text (fields : Fields) (name : String) : Option String :=
  match fields.reverse.lookup name with
  | some (.text s) => some s
  | some (.number _) => none
  | none => some ""

end TektonPipeline.JsonText
