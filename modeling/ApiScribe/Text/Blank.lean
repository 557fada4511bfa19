/-! Blanks are the code points with the Unicode property White_Space. Trimming
removes them from either end of a text; it never looks inside. Every reader of
the library trims through this module, so that all of them agree on what an
empty text is. -/
namespace ApiScribe.Text

/-- Ranges of the Unicode property White_Space, both ends included. -/
def blanks : List (Nat × Nat) := [
  (0x9, 0xD), (0x20, 0x20), (0x85, 0x85), (0xA0, 0xA0), (0x1680, 0x1680), (0x2000, 0x200A),
  (0x2028, 0x2029), (0x202F, 0x202F), (0x205F, 0x205F), (0x3000, 0x3000)]

/-- Whether a code point lies in one of the ranges of a table. -/
def within (table : List (Nat × Nat)) (c : Char) : Bool :=
  table.any fun range => range.1 ≤ c.toNat && c.toNat ≤ range.2

def isBlank (c : Char) : Bool := within blanks c

def trimStart (text : List Char) : List Char := text.dropWhile isBlank

def trimEnd (text : List Char) : List Char := (text.reverse.dropWhile isBlank).reverse

def trim (text : List Char) : List Char := trimEnd (trimStart text)

/-- Trimming of a whole string. -/
def trimmed (text : String) : String := String.ofList (trim text.toList)

/-- How many blanks a line begins with, counted in characters. -/
def indentation (line : List Char) : Nat := (line.takeWhile isBlank).length

/-- A line with nothing but blanks on it. -/
def isBlankLine (line : List Char) : Bool := line.all isBlank

theorem trimStart_length_le (text : List Char) : (trimStart text).length ≤ text.length := by
  induction text with
  | nil => simp [trimStart]
  | cons c rest ih =>
    simp only [trimStart, List.dropWhile_cons] at ih ⊢
    split
    · exact Nat.le_succ_of_le ih
    · exact Nat.le_refl _

private theorem trimEnd_length_le (text : List Char) : (trimEnd text).length ≤ text.length := by
  have shorter := trimStart_length_le text.reverse
  simpa [trimEnd, trimStart] using shorter

theorem trim_length_le (text : List Char) : (trim text).length ≤ text.length :=
  Nat.le_trans (trimEnd_length_le _) (trimStart_length_le _)

end ApiScribe.Text
