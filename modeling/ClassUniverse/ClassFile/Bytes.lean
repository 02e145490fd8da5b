/-!
# Reading bytes in sequence

A reader takes bytes from the front of a list and gives back a value and the bytes that are left,
or fails.  Numbers of several bytes have the most significant byte first.
-/

namespace ClassUniverse.ClassFile

/-- A reader of values from the front of a list of bytes. -/
abbrev Reader (α : Type) := StateT (List UInt8) Option α

def takeExactly : Nat → List UInt8 → Option (List UInt8 × List UInt8)
  | 0, rest => some ([], rest)
  | _ + 1, [] => none
  | n + 1, b :: rest => (takeExactly n rest).map fun (front, rest) => (b :: front, rest)

namespace Reader

def bytes (n : Nat) : Reader (List UInt8) := fun rest => takeExactly n rest

def byte : Reader UInt8
  | [] => none
  | b :: rest => some (b, rest)

def number (bytes : List UInt8) : Nat := bytes.foldl (fun value b => value * 256 + b.toNat) 0

def u16 : Reader Nat := return number (← bytes 2)

def u32 : Reader Nat := return number (← bytes 4)

def times {α : Type} (item : Reader α) : Nat → Reader (List α)
  | 0 => pure []
  | n + 1 => do
      let first ← item
      let rest ← times item n
      return first :: rest

def counted {α : Type} (item : Reader α) : Reader (List α) := do
  let count ← u16
  times item count

end Reader

end ClassUniverse.ClassFile
