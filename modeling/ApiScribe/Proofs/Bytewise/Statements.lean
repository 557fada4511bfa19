import ApiScribe.Proofs.Bytewise.Expressions
import ApiScribe.Source.Block

/-! Statements read from bytes. Headers, assignments and docstrings are cut at byte offsets as
well, and at boundaries only, so that no source text stops the reader. -/
namespace ApiScribe.Bytewise
open Text ApiScribe.Expr ApiScribe.Source

/-- Cuts the head of a compound statement from what stands on its line. -/
def cutHeader (text : List Char) : Except Torn (List Char × List Char) := do
  match ← cutTopLevel? ':' text with
  | some (header, inline) => return (trim header, trim inline)
  | none => return (trim text, [])

/-- A line without its margin, which is counted in characters, and the blanks at its end. -/
def cleanLine (margin : Nat) (line : List Char) : Except Torn (List Char) := do
  let count := min margin (indentation line)
  let start := if count < line.length then byteLength (line.take count) else byteLength line
  return trimEnd (← slice line start (byteLength line))

/-- The text of a docstring; none if it holds nothing but blanks. -/
def cleanDocstring? (raw : List Char) : Except Torn (Option (List Char)) := do
  match Text.lines raw with
  | [] => return none
  | first :: others =>
    let cleaned ← others.mapM (cleanLine (margin others))
    match trim (joined ['\n'] (trim first :: cleaned)) with
    | [] => return none
    | c :: rest => return some (c :: rest)

def docstring? (body : List Line) : Except Torn (Option String) := do
  match body with
  | [] => return none
  | first :: _ =>
    match ← readString? first.text with
    | none => return none
    | some raw => return (← cleanDocstring? raw).map String.ofList

/-- The bases among the items in the brackets of a class header. -/
def readBases (inside : List Char) : Except Torn (List String) := do
  let items ← splitTopLevel ',' inside
  let positional := items.filter fun base => (findIndex? (bytes base) '='.toUInt8 0 0).isNone
  return positional.map String.ofList

def readClassHeader? (header : List Char) : Except Torn (Option (String × List String)) := do
  match (dropKeyword? "class".toList header).bind cutName? with
  | none => return none
  | some (name, []) => return some (name, [])
  | some (name, rest) =>
    match cutBrackets? rest with
    | none => return none
    | some inside => return some (name, ← readBases inside)

def readClass? (statement : Statement) : Except Torn (Option ClassDef) := do
  let (header, inline) ← cutHeader statement.head.text
  match ← readClassHeader? header with
  | none => return none
  | some (name, bases) =>
    let body := statement.block inline
    return some ⟨name, bases, statement.head.number, ← docstring? body, body⟩

def readFunction? (statement : Statement) : Except Torn (Option FunctionDef) := do
  let (_, inline) ← cutHeader statement.head.text
  match readFunctionName? statement.head.text with
  | none => return none
  | some name =>
    let body := statement.block inline
    let decorators := statement.decorators.map fun line =>
      String.ofList (trim (line.text.dropWhile (· == '@')))
    return some ⟨name, decorators, statement.head.number, ← docstring? body, body⟩

/-- Characters before an equals sign that make it no plain assignment. -/
def operators : List Char := ['!', '<', '>', '=', '-', '*', '/', '%', '|', '&', '^']

def readTarget? (text : List Char) : Except Torn (Option String) := do
  let target := trim text
  let bare := match ← cutTopLevel? ':' target with
    | some (name, _) => trim name
    | none => target
  return if isDottedName bare then some (String.ofList bare) else none

def readAssignment? (line : Line) : Except Torn (Option Assignment) := do
  let text := line.text
  let firstWord := text.takeWhile fun c => isAlphanumeric c || c == '_'
  if String.ofList firstWord ∈ keywords then return none
  else match findIndex? (bytes text) '='.toUInt8 0 0 with
    | none => return none
    | some i =>
      let before := if i = 0 then none else (bytes text)[i - 1]?
      if (bytes text)[i + 1]? = some '='.toUInt8 ∨ before.any (among operators) = true then
        return none
      else
        let augmented := before == some '+'.toUInt8
        match ← readTarget? (← slice text 0 (if augmented then i - 1 else i)) with
        | none => return none
        | some target =>
          let right ← slice text (i + 1) (byteLength text)
          return some ⟨target, ← read right, String.ofList (trim right), augmented, line.number⟩

/-- The kind of a statement. -/
def kind (statement : Statement) : Except Torn Kind := do
  let text := statement.head.text
  let opens (word : String) : Bool := word.toList.isPrefixOf text
  if opens "class " then return ((← readClass? statement).map Kind.classDef).getD .unreadable
  else if opens "def " || opens "async " then
    return ((← readFunction? statement).map Kind.function).getD .unreadable
  else if opens "import " || opens "from " then return .imported (String.ofList text)
  else
    return ((← readAssignment? statement.head).map Kind.assignment).getD
      (.expression statement.head)

variable {left right : List Char}

private theorem operators_ascii : ∀ a ∈ operators, a.toNat < 128 := by simp [operators]

/-- A header is cut at its colon without tearing a character. -/
theorem cutHeader_eq (text : List Char) : cutHeader text = .ok (Source.cutHeader text) := by
  rw [cutHeader, cutTopLevel?_eq (by decide), ok_bind, Source.cutHeader]
  cases Expr.cutTopLevel? ':' text <;> rfl

/-- The margin of a line ends at a character, so the cut behind it can be made. -/
private theorem cleanLine_eq (margin : Nat) (line : List Char) :
    cleanLine margin line = .ok (Source.cleanLine margin line) := by
  have cut (count : Nat) : slice line (byteLength (line.take count)) (byteLength line) =
      .ok (line.drop count) := by
    have back := slice_back (line.take count) (line.drop count)
    rwa [List.take_append_drop] at back
  rw [cleanLine, Source.cleanLine]
  by_cases inside : min margin (indentation line) < line.length
  · simp only [if_pos inside, cut, ok_bind]
    rfl
  · have none : line.drop (min margin (indentation line)) = [] :=
      List.drop_eq_nil_of_le (Nat.le_of_not_lt inside)
    have last := cut line.length
    rw [List.take_length, List.drop_length] at last
    simp only [if_neg inside, none, last, ok_bind]
    rfl

private theorem cleanDocstring?_eq (raw : List Char) :
    cleanDocstring? raw = .ok (Source.cleanDocstring? raw) := by
  rw [cleanDocstring?, Source.cleanDocstring?]
  cases Text.lines raw with
  | nil => rfl
  | cons first others =>
    simp only [mapM_ok fun line _ => cleanLine_eq (margin others) line, ok_bind]
    cases trim (joined ['\n'] (trim first :: others.map (Source.cleanLine (margin others)))) <;> rfl

/-- The docstring is read off the first statement of a body as a literal. -/
private theorem docstring?_eq (body : List Line) :
    docstring? body = .ok (Source.docstring? body) := by
  cases body with
  | nil => rfl
  | cons first others =>
    rw [docstring?, Source.docstring?, readString?_eq, ok_bind]
    cases Expr.readString? first.text with
    | none => rfl
    | some raw =>
      simp only [cleanDocstring?_eq, ok_bind]
      rfl

private theorem readBases_eq (inside : List Char) :
    readBases inside = .ok (Source.readBases inside) := by
  have unnamed (base : List Char) : (findIndex? (bytes base) '='.toUInt8 0 0).isNone =
      (Expr.cutTopLevel? '=' base).isNone := by
    rw [findIndex?_cut (by decide), Option.isNone_map]
  rw [readBases, splitTopLevel_eq (by decide), ok_bind, Source.readBases]
  simp only [unnamed]
  rfl

/-- A class header is cut at its bracket and at the one that closes it. -/
private theorem readClassHeader?_eq (header : List Char) :
    readClassHeader? header = .ok (Source.readClassHeader? header) := by
  rw [readClassHeader?, Source.readClassHeader?]
  rcases (dropKeyword? "class".toList header).bind cutName? with _ | ⟨name, _ | ⟨c, rest⟩⟩
  · rfl
  · rfl
  · simp only
    cases cutBrackets? (c :: rest) with
    | none => rfl
    | some inside =>
      simp only [readBases_eq]
      rfl

private theorem readClass?_eq (statement : Statement) :
    readClass? statement = .ok (Source.readClass? statement) := by
  rw [readClass?, cutHeader_eq, ok_bind, Source.readClass?]
  simp only [readClassHeader?_eq, ok_bind]
  cases Source.readClassHeader? (Source.cutHeader statement.head.text).1 with
  | none => rfl
  | some found =>
    simp only [docstring?_eq]
    rfl

private theorem readFunction?_eq (statement : Statement) :
    readFunction? statement = .ok (Source.readFunction? statement) := by
  rw [readFunction?, cutHeader_eq, ok_bind, Source.readFunction?]
  cases readFunctionName? statement.head.text with
  | none => rfl
  | some name =>
    simp only [docstring?_eq]
    rfl

/-- A target is cut at the colon before its type, if it has one. -/
private theorem readTarget?_eq (text : List Char) :
    readTarget? text = .ok (Source.readTarget? text) := by
  rw [readTarget?, cutTopLevel?_eq (by decide), ok_bind, Source.readTarget?]
  rfl

/-- What the bytes around an equals sign tell is what the characters do. -/
theorem bytes_around (text : List Char)
    (found : Expr.cutTopLevel? '=' text = some (left, right)) :
    (if byteLength left = 0 then none else (bytes text)[byteLength left - 1]?) =
        (bytes left).getLast? ∧
      (bytes left).getLast?.any (among operators) = left.getLast?.any isOperator ∧
      ((bytes left).getLast? == some '+'.toUInt8) = (left.getLast? == some '+') := by
  refine ⟨?_, any_getLast_bytes operators_ascii left, ?_⟩
  · by_cases none : left = []
    · rw [none]
      rfl
    · rw [if_neg fun zero => none (byteLength_eq_zero.mp zero), cutTopLevel?_append found]
      exact byte_before left ('=' :: right) none
  · rw [Bool.eq_iff_iff, beq_iff_eq, beq_iff_eq]
    exact getLast_bytes (by decide)

/-- The sign of an augmented assignment is one byte. -/
theorem slice_dropLast (text : List Char) (plus : left.getLast? = some '+')
    (found : Expr.cutTopLevel? '=' text = some (left, right)) :
    slice text 0 (byteLength left - 1) = .ok left.dropLast := by
  obtain ⟨front, rfl⟩ := List.getLast?_eq_some_iff.mp plus
  rw [cutTopLevel?_append found, List.dropLast_concat]
  refine slice_of [] front ('+' :: '=' :: right) (by simp) rfl ?_
  rw [byteLength_append, byteLength_cons, utf8Size_ascii (by decide)]
  simp

/-- An assignment is read off the bytes of its line as it is off its characters. -/
theorem readAssignment?_eq (line : Line) :
    readAssignment? line = .ok (Source.readAssignment? line) := by
  rw [readAssignment?, Source.readAssignment?]
  simp only
  split
  · rfl
  · cases found : Expr.cutTopLevel? '=' line.text with
    | none =>
      rw [index_of_uncut (by decide) found]
      rfl
    | some cut =>
      obtain ⟨left, right⟩ := cut
      obtain ⟨index, first, second⟩ := slices_of_cut (by decide) found
      have next : (bytes line.text)[byteLength left + 1]? = some '='.toUInt8 ↔
          right.head? = some '=' := byte_behind_cut (by decide) (by decide) found
      obtain ⟨before, compares, adds⟩ := bytes_around line.text found
      simp only [index, next, before, compares, adds]
      have same : (decide (right.head? = some '=') || left.getLast?.any isOperator) = true ↔
          right.head? = some '=' ∨ left.getLast?.any isOperator = true := by simp
      by_cases other : right.head? = some '=' ∨ left.getLast?.any isOperator = true
      · rw [if_pos other, if_pos (same.mpr other)]
        rfl
      · rw [if_neg other, if_neg (mt same.mp other)]
        cases plus : left.getLast? == some '+' with
        | true =>
          have target := slice_dropLast line.text (eq_of_beq plus) found
          simp only [if_true, target, ok_bind, readTarget?_eq]
          cases Source.readTarget? left.dropLast with
          | none => rfl
          | some name =>
            simp only [second, ok_bind, read_eq]
            rfl
        | false =>
          simp only [Bool.false_eq_true, if_false, first, ok_bind, readTarget?_eq]
          cases Source.readTarget? left with
          | none => rfl
          | some name =>
            simp only [second, ok_bind, read_eq]
            rfl

/-- Every statement is told apart by its bytes as by its characters, with no slice that fails. -/
theorem kind_eq (statement : Statement) : kind statement = .ok statement.kind := by
  rw [kind, Statement.kind]
  simp only [readClass?_eq, readFunction?_eq, readAssignment?_eq, ok_bind]
  split
  · rfl
  · split
    · rfl
    · split <;> rfl

end ApiScribe.Bytewise
