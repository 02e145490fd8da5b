/-!
# Reports

A report is a list of named entries.  It is written as an object of the JavaScript object notation,
two blanks deeper for each level.
-/

namespace ClassUniverse

/-- What an entry of a report says.  The elapsed time is known only when the report is written. -/
inductive ReportValue
  | absent
  | count (n : Nat)
  | truth (b : Bool)
  | text (s : String)
  | texts (items : List String)
  | elapsed
  deriving DecidableEq, Repr

/-- Named entries in the order in which they are written. -/
structure Report where
  entries : List (String × ReportValue)
  deriving DecidableEq, Repr

namespace Report

def hexDigit (n : Nat) : Char := Nat.digitChar (n % 16)

def escape (c : Char) : List Char :=
  if c = '"' then ['\\', '"']
  else if c = '\\' then ['\\', '\\']
  else if c.toNat = 0x08 then ['\\', 'b']
  else if c.toNat = 0x09 then ['\\', 't']
  else if c.toNat = 0x0A then ['\\', 'n']
  else if c.toNat = 0x0C then ['\\', 'f']
  else if c.toNat = 0x0D then ['\\', 'r']
  else if c.toNat < 0x20 then ['\\', 'u', '0', '0', hexDigit (c.toNat / 16), hexDigit c.toNat]
  else [c]

def quoted (s : String) : String := String.ofList ('"' :: s.toList.flatMap escape ++ ['"'])

/-- Lines between brackets, a comma after each but the last; without lines the brackets touch. -/
def block (opening closing indent : String) (lines : List String) : String :=
  if lines.isEmpty then opening ++ closing
  else
    let inner := indent ++ "  "
    let body := String.intercalate (",\n" ++ inner) lines
    opening ++ "\n" ++ inner ++ body ++ "\n" ++ indent ++ closing

/-- What an entry says, as written inside of a report. -/
def renderValue (elapsed : Nat) : ReportValue → String
  | .absent => "null"
  | .count n => toString n
  | .truth b => if b then "true" else "false"
  | .text s => quoted s
  | .texts items => block "[" "]" "  " (items.map quoted)
  | .elapsed => toString elapsed

/-- A report as text, for an elapsed time in milliseconds. -/
def render (elapsed : Nat) (r : Report) : String :=
  block "\x7b" "\x7d" "" (r.entries.map fun entry =>
    quoted entry.1 ++ ": " ++ renderValue elapsed entry.2)

end Report

end ClassUniverse
