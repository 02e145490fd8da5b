/-!
# Blank characters and trimming

A character is blank when Unicode gives it the property `White_Space`.
-/

namespace ClassUniverse.Text

/-- The ranges of code points with the property `White_Space`, first and last included. -/
def blankRanges : List (Nat × Nat) :=
  [(0x09, 0x0D), (0x20, 0x20), (0x85, 0x85), (0xA0, 0xA0), (0x1680, 0x1680), (0x2000, 0x200A),
    (0x2028, 0x2029), (0x202F, 0x202F), (0x205F, 0x205F), (0x3000, 0x3000)]

def isBlank (c : Char) : Bool :=
  blankRanges.any fun (first, last) => first ≤ c.toNat && c.toNat ≤ last

def trimStart (s : List Char) : List Char := s.dropWhile isBlank

def trimEnd (s : List Char) : List Char := (s.reverse.dropWhile isBlank).reverse

/-- A text without the blank characters at its two ends. -/
def trim (s : List Char) : List Char := trimEnd (trimStart s)

theorem trim_of_not_blank {s : List Char} (h : ∀ c ∈ s, isBlank c = false) : trim s = s := by
  have hkeep : ∀ s : List Char, (∀ c ∈ s, isBlank c = false) → s.dropWhile isBlank = s := by
    intro s hs
    cases s with
    | nil => rfl
    | cons c s => simp [hs c List.mem_cons_self]
  have hreverse : ∀ c ∈ s.reverse, isBlank c = false := by simpa using h
  rw [trim, trimStart, hkeep s h, trimEnd, hkeep s.reverse hreverse, List.reverse_reverse]

/-- A text without the blank characters at its two ends. -/
def trimmed (s : String) : String := String.ofList (trim s.toList)

end ClassUniverse.Text
