import ApiScribe.Text.Cut

/-! Expression text as a row of string literals and single characters. Commas,
colons and brackets inside a literal mean nothing, so every search for them
walks this row instead of the characters. Writing the row out gives the text
back, which makes each cut a cut of the text itself. -/
namespace ApiScribe.Expr
open Text

/-- The rest of a literal with one quote on either side and what follows it.
A backslash protects the character after it, and a line feed ends a literal
that was never closed. -/
def shortLiteral (quote : Char) : List Char → List Char × List Char
  | [] => ([], [])
  | '\\' :: c :: rest =>
    let (inside, after) := shortLiteral quote rest
    ('\\' :: c :: inside, after)
  | c :: rest =>
    if c = quote then ([c], rest)
    else if c = '\n' then ([], c :: rest)
    else
      let (inside, after) := shortLiteral quote rest
      (c :: inside, after)

/-- The rest of a literal with three quotes on either side and what follows it. -/
def longLiteral (quote : Char) : List Char → List Char × List Char
  | [] => ([], [])
  | '\\' :: c :: rest =>
    let (inside, after) := longLiteral quote rest
    ('\\' :: c :: inside, after)
  | c :: rest =>
    if c = quote ∧ rest.take 2 = [quote, quote] then ([c, quote, quote], rest.drop 2)
    else
      let (inside, after) := longLiteral quote rest
      (c :: inside, after)

/-- Cuts the text after an opening quote where the literal ends. -/
def literalTail (quote : Char) (text : List Char) : List Char × List Char :=
  if text.take 2 = [quote, quote] then
    let (inside, after) := longLiteral quote (text.drop 2)
    (quote :: quote :: inside, after)
  else shortLiteral quote text

/-- A literal and what is behind it make up the text. -/
theorem shortLiteral_append (quote : Char) (text : List Char) :
    (shortLiteral quote text).1 ++ (shortLiteral quote text).2 = text := by
  fun_induction shortLiteral quote text <;> simp_all

/-- A literal and what is behind it make up the text, as well with three quotes. -/
theorem longLiteral_append (quote : Char) (text : List Char) :
    (longLiteral quote text).1 ++ (longLiteral quote text).2 = text := by
  fun_induction longLiteral quote text with
  | case1 => simp
  | case2 c rest inside after same ih => simp_all
  | case3 c rest _ closes =>
    have parts := List.take_append_drop 2 rest
    rw [closes.2] at parts
    simpa [closes.1] using parts
  | case4 c rest _ closes inside after same ih => simp_all

theorem literalTail_append (quote : Char) (text : List Char) :
    (literalTail quote text).1 ++ (literalTail quote text).2 = text := by
  unfold literalTail
  split
  · next opens =>
    have parts := List.take_append_drop 2 text
    rw [opens] at parts
    have rest := longLiteral_append quote (text.drop 2)
    simpa [rest] using parts
  · exact shortLiteral_append quote text

theorem literalTail_after_length_le (quote : Char) (text : List Char) :
    (literalTail quote text).2.length ≤ text.length := by
  have parts := congrArg List.length (literalTail_append quote text)
  simp only [List.length_append] at parts
  omega

/-- A string literal with its quotes, or a character outside of all literals. -/
inductive Atom where
  | literal (text : List Char)
  | plain (c : Char)
  deriving DecidableEq, Repr

def Atom.chars : Atom → List Char
  | .literal text => text
  | .plain c => [c]

def isQuote (c : Char) : Bool := c == '\'' || c == '"'

/-- The row of literals and characters that a text is made of. -/
def atoms : List Char → List Atom
  | [] => []
  | c :: rest =>
    if isQuote c then
      .literal (c :: (literalTail c rest).1) :: atoms (literalTail c rest).2
    else .plain c :: atoms rest
termination_by text => text.length
decreasing_by
  · have shorter := literalTail_after_length_le c rest
    simp only [List.length_cons]
    omega
  · simp

/-- The text of a row. -/
def written (row : List Atom) : List Char := row.flatMap Atom.chars

/-- Nothing of a text is lost in its row. -/
theorem written_atoms (text : List Char) : written (atoms text) = text := by
  fun_induction atoms text with
  | case1 => rfl
  | case2 c rest quoted ih =>
    have parts := literalTail_append c rest
    simp only [written, List.flatMap_cons, Atom.chars] at ih ⊢
    rw [ih, List.cons_append, parts]
  | case3 c rest quoted ih =>
    simp only [written, List.flatMap_cons, Atom.chars] at ih ⊢
    rw [ih, List.singleton_append]

def isOpening (c : Char) : Bool := c == '(' || c == '[' || c == '{'

def isClosing (c : Char) : Bool := c == ')' || c == ']' || c == '}'

private def before (atom : Atom) (cut : List Atom × List Atom) : List Atom × List Atom :=
  (atom :: cut.1, cut.2)

/-- Cuts a row at the bracket that brings the depth back to nothing. The kind
of a bracket does not matter, and a closing one without an opening one before
it ends the search. -/
def closeFrom? (depth : Nat) : List Atom → Option (List Atom × List Atom)
  | [] => none
  | .literal text :: rest => (closeFrom? depth rest).map (before (.literal text))
  | .plain c :: rest =>
    if isOpening c then (closeFrom? (depth + 1) rest).map (before (.plain c))
    else if isClosing c then
      match depth with
      | 0 => none
      | 1 => some ([], rest)
      | deeper + 2 => (closeFrom? (deeper + 1) rest).map (before (.plain c))
    else (closeFrom? depth rest).map (before (.plain c))

/-- Cuts a row at the first `target` outside of all brackets. A closing bracket
too many is ignored. -/
def findFrom? (target : Char) (depth : Nat) : List Atom → Option (List Atom × List Atom)
  | [] => none
  | .literal text :: rest => (findFrom? target depth rest).map (before (.literal text))
  | .plain c :: rest =>
    if c = target ∧ depth = 0 then some ([], rest)
    else
      let inner := if isOpening c then depth + 1 else if isClosing c then depth - 1 else depth
      (findFrom? target inner rest).map (before (.plain c))

/-- The text before and after the first `target` outside of brackets and
literals. -/
def cutTopLevel? (target : Char) (text : List Char) : Option (List Char × List Char) :=
  (findFrom? target 0 (atoms text)).map fun (left, right) => (written left, written right)

/-- The text between an opening bracket that a text begins with and the bracket
that closes it, if the text ends there. -/
def enclosed? (text : List Char) : Option (List Char) :=
  match closeFrom? 0 (atoms text) with
  | some (inside, []) => some ((written inside).drop 1)
  | _ => none

private theorem findFrom?_written {target : Char} {depth : Nat} {row left right : List Atom}
    (found : findFrom? target depth row = some (left, right)) :
    written row = written left ++ target :: written right := by
  induction row generalizing depth left with
  | nil => simp [findFrom?] at found
  | cons atom rest ih =>
    cases atom with
    | literal text =>
      simp only [findFrom?, Option.map_eq_some_iff, before, Prod.mk.injEq] at found
      obtain ⟨⟨l, r⟩, inner, rfl, rfl⟩ := found
      simp [written, Atom.chars] at ih ⊢
      exact ih inner
    | plain c =>
      simp only [findFrom?] at found
      split at found
      · next here =>
        simp only [Option.some.injEq, Prod.mk.injEq] at found
        obtain ⟨rfl, rfl⟩ := found
        simp [written, Atom.chars, here.1]
      · simp only [Option.map_eq_some_iff, before, Prod.mk.injEq] at found
        obtain ⟨⟨l, r⟩, inner, rfl, rfl⟩ := found
        simp [written, Atom.chars] at ih ⊢
        exact ih inner

/-- A cut drops nothing but its target. -/
theorem cutTopLevel?_append {target : Char} {text left right : List Char}
    (found : cutTopLevel? target text = some (left, right)) :
    text = left ++ target :: right := by
  simp only [cutTopLevel?, Option.map_eq_some_iff, Prod.mk.injEq] at found
  obtain ⟨⟨l, r⟩, row, rfl, rfl⟩ := found
  rw [← findFrom?_written row, written_atoms]

private theorem closeFrom?_written {depth : Nat} {row left right : List Atom}
    (found : closeFrom? depth row = some (left, right)) :
    ∃ c, written row = written left ++ c :: written right := by
  induction row generalizing depth left with
  | nil => simp [closeFrom?] at found
  | cons atom rest ih =>
    have grows : ∀ {inner l}, (closeFrom? inner rest).map (before atom) = some (l, right) →
        ∃ c, written (atom :: rest) = written l ++ c :: written right := by
      intro inner l step
      simp only [Option.map_eq_some_iff, before, Prod.mk.injEq] at step
      obtain ⟨⟨l', r'⟩, deeper, rfl, rfl⟩ := step
      obtain ⟨c, same⟩ := ih deeper
      exact ⟨c, by simp [written] at same ⊢; exact same⟩
    cases atom with
    | literal text => exact grows found
    | plain c =>
      simp only [closeFrom?] at found
      split at found
      · exact grows found
      · split at found
        · split at found
          · simp at found
          · simp only [Option.some.injEq, Prod.mk.injEq] at found
            obtain ⟨rfl, rfl⟩ := found
            exact ⟨c, by simp [written, Atom.chars]⟩
          · exact grows found
        · exact grows found

theorem enclosed?_length {text inside : List Char} (found : enclosed? text = some inside) :
    inside.length < text.length := by
  unfold enclosed? at found
  split at found
  · next row closed =>
    obtain ⟨c, same⟩ := closeFrom?_written closed
    rw [written_atoms] at same
    simp only [Option.some.injEq] at found
    subst found
    have size := congrArg List.length same
    simp [written] at size ⊢
    omega
  · simp at found

private def kept (piece : List Char) : List (List Char) :=
  if piece.isEmpty then [] else [piece]

/-- The trimmed pieces between the separators outside of brackets and literals.
Pieces with nothing in them are dropped. -/
def splitTopLevel (separator : Char) (text : List Char) : List (List Char) :=
  match _found : cutTopLevel? separator text with
  | none => kept (trim text)
  | some (piece, rest) => kept (trim piece) ++ splitTopLevel separator rest
termination_by text.length
decreasing_by
  have size := congrArg List.length (cutTopLevel?_append _found)
  simp only [List.length_append, List.length_cons] at size
  omega

/-- The byte at which the first `target` outside of brackets and literals stands. -/
def findOffset? (target : Char) (text : List Char) : Option Nat :=
  (cutTopLevel? target text).map fun (left, _) => byteLength left

/-- A text without its first `count` bytes. A character that would be torn is
dropped as a whole. -/
def dropBytes : Nat → List Char → List Char
  | 0, text => text
  | _, [] => []
  | count + 1, c :: rest => dropBytes (count + 1 - c.utf8Size) rest

/-- The byte at which the bracket closes that opens at byte `start`. -/
def closeOffset? (text : List Char) (start : Nat) : Option Nat :=
  let tail := dropBytes start text
  (closeFrom? 0 (atoms tail)).map fun (inside, _) =>
    byteLength text - byteLength tail + byteLength (written inside)

/-- No piece is longer than the text it was split from. -/
theorem splitTopLevel_length_le {separator : Char} {text piece : List Char}
    (member : piece ∈ splitTopLevel separator text) : piece.length ≤ text.length := by
  fun_induction splitTopLevel separator text with
  | case1 text _ =>
    simp only [kept] at member
    split at member
    · simp at member
    · simp only [List.mem_singleton] at member
      exact member ▸ trim_length_le text
  | case2 text left rest found ih =>
    have size := congrArg List.length (cutTopLevel?_append found)
    simp only [List.length_append, List.length_cons] at size
    simp only [List.mem_append] at member
    rcases member with member | member
    · simp only [kept] at member
      split at member
      · simp at member
      · simp only [List.mem_singleton] at member
        have shorter := trim_length_le left
        rw [member]
        omega
    · have := ih member
      omega

end ApiScribe.Expr
