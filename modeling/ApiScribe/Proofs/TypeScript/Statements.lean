import ApiScribe.Proofs.Text.ShownLines
import ApiScribe.Proofs.TypeScript.Headers
import ApiScribe.Proofs.TypeScript.Meaning

/-! Statements of rendered files, read off their texts. The reader passes over comments and takes
up what the lines outside of them export and declare. Every statement of a rendered file begins a
line of its own, so that a file is read as just what was rendered into it unless a text in it ends
a line or a comment. -/
namespace ApiScribe.TypeScript
open Text

/-- What a line exports or declares. -/
inductive Statement where
  | exportAll (module : String)
  | exportNames (names : List String) (module : String)
  | declaration (exported : Bool) (name : String)
  deriving DecidableEq

/-- The lines of a text. -/
def linesOf (text : List Char) : List (List Char) := splitAt (lineTerminators.contains ·) text

/-- The lines outside of comments. A comment begins on a line of its own and ends with the line
that its mark stands on. -/
def codeLines (commented : Bool) : List (List Char) → List (List Char)
  | [] => []
  | line :: rest =>
    if commented || "/*".toList.isPrefixOf line then codeLines (!decide (closer <:+: line)) rest
    else line :: codeLines false rest

def isWord (name : List Char) : Bool := name.head?.any isWordStart && name.all isWordPart

/-- The module behind a list of names, if it ends the line. -/
def source? (text : List Char) : Option String := do
  let name ← dropTail? "';".toList (← dropHead? " from './".toList text)
  if name.any unwritten.contains then none else some (String.ofList name)

/-- The names between braces. -/
def names? (text : List Char) : Option (List String) :=
  let names := (splitAt (· == ',') text).map trim
  if names.all isWord then some (names.map String.ofList) else none

/-- An export of what another module declares. -/
def reexport? (text : List Char) : Option Statement :=
  match dropHead? ['*'] text with
  | some rest => (source? rest).map .exportAll
  | none => do
    let (inside, rest) ← cutAt? ['}'] (← dropHead? ['{'] text)
    let names ← names? inside
    let module ← source? rest
    some (.exportNames names module)

/-- The name that a declaration declares. -/
def declared? (text : List Char) : Option String := do
  let rest ← ["interface ", "enum ", "type "].findSome? fun word => dropHead? word.toList text
  let name := rest.takeWhile isWordPart
  if isWord name then some (String.ofList name) else none

/-- The statement that a line begins with. What is inside of a statement is indented. -/
def statement? (line : List Char) : Option Statement :=
  match dropHead? "export ".toList line with
  | some rest => (reexport? rest).or ((declared? rest).map (.declaration true))
  | none => (declared? line).map (.declaration false)

/-- The statements of a text. -/
def statements (text : List Char) : List Statement :=
  (codeLines false (linesOf text)).filterMap statement?

variable {text line rest name : List Char} {names : List (List Char)}

/-! Lines. -/

theorem statements_nil : statements [] = [] := by decide

/-- A text without a character that ends its line. -/
def SingleLine (text : List Char) : Prop := ∀ c ∈ text, c ∉ lineTerminators

instance : Decidable (SingleLine text) := List.decidableBAll (· ∉ lineTerminators) text

/-- A line that is neither broken nor the beginning of a comment. -/
def PlainLine (line : List Char) : Prop := SingleLine line ∧ line.head? ≠ some '/'

instance : Decidable (PlainLine line) :=
  inferInstanceAs (Decidable (SingleLine line ∧ line.head? ≠ some '/'))

private theorem linesOf_append (text rest : List Char) :
    linesOf (text ++ '\n' :: rest) = linesOf text ++ linesOf rest :=
  splitAt_append (by decide) text rest

private theorem linesOf_singleLine (single : SingleLine line) : linesOf line = [line] :=
  splitAt_of_none fun c member => by simpa using single c member

/-- A line outside of comments is read on its own. -/
theorem statements_line (plain : PlainLine line) (rest : List Char) :
    statements (line ++ '\n' :: rest) = (statement? line).toList ++ statements rest := by
  have opens : ¬ "/*".toList <+: line := by
    rintro ⟨more, rfl⟩
    exact plain.2 rfl
  have code : codeLines false (line :: linesOf rest) = line :: codeLines false (linesOf rest) := by
    rw [codeLines, if_neg]
    simpa [List.isPrefixOf_iff_prefix] using opens
  rw [statements, linesOf_append, linesOf_singleLine plain.1, List.singleton_append, code,
    List.filterMap_cons, statements]
  cases statement? line <;> rfl

/-- Lines one below the other are read in turn. -/
theorem statements_unlines {written : List String}
    (plain : ∀ line ∈ written, PlainLine line.toList) (rest : List Char) :
    statements ((unlines written).toList ++ rest) =
      written.filterMap (fun line => statement? line.toList) ++ statements rest := by
  induction written with
  | nil => rfl
  | cons first others ih =>
    obtain ⟨here, below⟩ := List.forall_mem_cons.mp plain
    rw [toList_unlines_cons, List.append_assoc, List.cons_append, statements_line here, ih below,
      List.filterMap_cons]
    cases statement? first.toList <;> rfl

/-! Comments. -/

/-- A comment goes on up to the line with its mark. -/
theorem codeLines_closed {front : List (List Char)} (inside : ∀ line ∈ front, ¬ closer <:+: line)
    (closes : closer <:+: line) (rest : List (List Char)) :
    codeLines true (front ++ line :: rest) = codeLines false rest := by
  induction front with
  | nil => simp [codeLines, closes]
  | cons first others ih =>
    obtain ⟨here, below⟩ := List.forall_mem_cons.mp inside
    rw [List.cons_append, codeLines, Bool.true_or, if_pos rfl, decide_eq_false here,
      Bool.not_false, ih below]

/-- What begins as a comment is one from its first line on. -/
private theorem codeLines_opened (opens : "/*".toList <+: text) (rest : List (List Char)) :
    codeLines false (linesOf text ++ rest) = codeLines true (linesOf text ++ rest) := by
  obtain ⟨more, rfl⟩ := opens
  obtain ⟨line, lines, below⟩ := List.exists_cons_of_ne_nil
    (splitAt_ne_nil (lineTerminators.contains ·) more)
  have alone : linesOf "/*".toList = [] ++ ["/*".toList] := by decide
  have met := splitAt_append_meet alone below
  rw [linesOf, met, List.nil_append, List.cons_append, codeLines, codeLines, Bool.true_or,
    if_pos rfl, if_pos (by simp)]

/-- Nothing is read off a comment. -/
theorem statements_comment (comment : Comment text) (rest : List Char) :
    statements (text ++ '\n' :: rest) = statements rest := by
  have opens : "/*".toList <+: text := by
    obtain ⟨others, whole⟩ := List.head?_eq_some_iff.mp comment.opens
    exact List.IsPrefix.trans (by decide) (splitAt_within whole).1
  obtain ⟨inside, rfl, once⟩ := comment.once
  obtain ⟨front, last, lines⟩ : ∃ front last, linesOf inside = front ++ [last] :=
    (List.eq_nil_or_concat' _).resolve_left (splitAt_ne_nil _ inside)
  have alone : linesOf closer = [closer] := by decide
  have met : linesOf (inside ++ closer) = front ++ [last ++ closer] :=
    splitAt_append_meet lines alone
  have unclosed : ∀ line ∈ front, ¬ closer <:+: line := by
    intro line member here
    have within : line <:+: inside := infix_of_mem_splitAt (lines ▸ List.mem_append_left _ member)
    exact once (here.trans (within.trans (List.prefix_append _ _).isInfix))
  have closes : closer <:+: last ++ closer := (List.suffix_append _ _).isInfix
  rw [statements, linesOf_append, codeLines_opened opens, met, List.append_assoc,
    List.singleton_append, codeLines_closed unclosed closes, statements]

/-! Words. -/

private theorem isWord_iff : isWord name = true ↔ Word name := by
  refine ⟨word_of_chars, fun word => ?_⟩
  obtain ⟨c, rest, rfl, starts⟩ := word.starts
  rw [isWord, Bool.and_eq_true, List.all_eq_true]
  exact ⟨starts, word.parts⟩

instance : Decidable (Word name) := decidable_of_iff (isWord name = true) isWord_iff

namespace Word

private theorem free {c : Char} (word : Word name) (other : isWordPart c = false) : c ∉ name := by
  intro member
  have part := word.parts c member
  rw [other] at part
  cases part

private theorem tight (word : Word name) : Expr.Tight name := by
  have solid : ∀ c ∈ name, isBlank c = false := by
    intro c member
    apply Expr.isBlank_of_isNameChar
    have part := word.parts c member
    rw [isWordPart, Bool.or_eq_true] at part
    simp only [Expr.isNameChar, Bool.or_eq_true]
    exact .inl part
  obtain ⟨c, rest, rfl, _⟩ := word.starts
  have last := List.getLast?_eq_some_getLast (List.cons_ne_nil c rest)
  exact ⟨⟨c, rfl, solid c List.mem_cons_self⟩, _, last, solid _ (List.getLast_mem _)⟩

/-- A word ends where other characters begin. -/
theorem takeWhile (word : Word name) (stops : ∀ c ∈ rest.head?, isWordPart c = false) :
    (name ++ rest).takeWhile isWordPart = name := by
  rw [List.takeWhile_append_of_pos word.parts]
  cases rest with
  | nil => exact List.append_nil name
  | cons d others =>
    rw [List.takeWhile_cons_of_neg (by simp [stops d rfl]), List.append_nil]

theorem singleLine (word : Word name) : SingleLine name := by
  intro c member ends
  have none : lineTerminators.all (!isWordPart ·) = true := by decide +kernel
  have other := List.all_eq_true.mp none c ends
  exact word.free (by simpa using other) member

end Word

/-! Lines that stay lines. -/

@[simp] theorem singleLine_append_iff :
    SingleLine (text ++ rest) ↔ SingleLine text ∧ SingleLine rest := by
  simp only [SingleLine, List.forall_mem_append]

/-- Joining goes on in one line if neither the texts nor the separator break it. -/
theorem singleLine_joined {separator : List Char} (plain : SingleLine separator)
    (single : ∀ text ∈ names, SingleLine text) : SingleLine (joined separator names) := by
  intro c member
  rcases mem_joined member with between | ⟨text, listed, inside⟩
  · exact plain c between
  · exact single text listed c inside

theorem singleLine_intercalate {texts : List String}
    (single : ∀ text ∈ texts, SingleLine text.toList) :
    SingleLine (", ".intercalate texts).toList := by
  rw [toList_intercalate_joined]
  exact singleLine_joined (by decide) (List.forall_mem_map.mpr single)

/-! Single statements. -/

/-- The end of an export of what a module declares. -/
def sourceText (module : String) : String := " from './" ++ module ++ "';"

/-- A text that stands between quotes as it is. -/
def Quotable (text : List Char) : Prop := ∀ c ∈ text, c ∉ unwritten

instance : Decidable (Quotable text) := List.decidableBAll (· ∉ unwritten) text

/-- A text that can stand in quotes is on one line. -/
theorem Quotable.singleLine (quotable : Quotable text) : SingleLine text := by
  have all : lineTerminators ⊆ unwritten := by decide
  exact fun c member ends => quotable c member (all ends)

/-- The module is read off the end of an export. -/
theorem source?_sourceText {module : String} (quotable : Quotable module.toList) :
    source? (sourceText module).toList = some module := by
  have whole : (sourceText module).toList =
      " from './".toList ++ (module.toList ++ "';".toList) := by
    rw [sourceText, String.toList_append, String.toList_append, List.append_assoc]
  have held : ¬ module.toList.any unwritten.contains = true := by
    simpa [Quotable] using quotable
  rw [source?, whole, dropHead?_append, Option.bind_eq_bind, Option.bind_some, dropTail?_append,
    Option.bind_some, if_neg held, String.ofList_toList]

/-- Names between braces are told apart by the commas between them. -/
theorem names?_written (words : ∀ name ∈ names, Word name) (some : names ≠ []) :
    names? (' ' :: joined ", ".toList names ++ [' ']) = .some (names.map String.ofList) := by
  have behind (text : List Char) : trim (' ' :: text) = trim text :=
    @trim_blank_append [' '] (by decide) text
  have alone {text : List Char} (free : ',' ∉ text) : splitAt (· == ',') text = [text] :=
    splitAt_of_none fun c member => beq_false_of_ne (ne_of_mem_of_not_mem member free)
  have listed :
      (splitAt (· == ',') (' ' :: joined ", ".toList names ++ [' '])).map trim = names := by
    induction names with
    | nil => exact absurd rfl some
    | cons name others ih =>
      obtain ⟨word, below⟩ := List.forall_mem_cons.mp words
      have free : ',' ∉ name := word.free (by decide)
      cases others with
      | nil =>
        rw [joined, alone (by simp [free]), List.map_singleton, List.cons_append, behind,
          word.tight.trim_behind]
      | cons second rest =>
        have split : ' ' :: joined ", ".toList (name :: second :: rest) ++ [' '] =
            (' ' :: name) ++ ',' :: (' ' :: joined ", ".toList (second :: rest) ++ [' ']) := by
          simp [joined_cons_cons]
        rw [split, splitAt_append (by simp), alone (by simp [free]), List.map_append,
          ih below (List.cons_ne_nil _ _), List.map_singleton, behind, word.tight.trim]
        rfl
  rw [names?, listed, if_pos]
  exact List.all_eq_true.mpr fun name member => isWord_iff.mpr (words name member)

/-- A line that exports a whole module is read as that. -/
theorem statement?_exportAll {module : String} (quotable : Quotable module.toList) :
    statement? ("export ".toList ++ '*' :: (sourceText module).toList) =
      some (.exportAll module) := by
  have rest : dropHead? ['*'] ('*' :: (sourceText module).toList) =
      some (sourceText module).toList := dropHead?_append ['*'] _
  rw [statement?, dropHead?_append]
  simp only [reexport?, rest, source?_sourceText quotable, Option.map_some, Option.some_or]

/-- A line that exports some names of a module is read with these names in their order. -/
theorem statement?_exportNames {module : String} (quotable : Quotable module.toList)
    (words : ∀ name ∈ names, Word name) (some : names ≠ []) :
    statement? ("export ".toList ++ '{' ::
        (' ' :: joined ", ".toList names ++ [' '] ++ '}' :: (sourceText module).toList)) =
      .some (.exportNames (names.map String.ofList) module) := by
  have free : '}' ∉ ' ' :: joined ", ".toList names ++ [' '] := by
    intro brace
    simp only [List.mem_append, List.mem_cons, List.not_mem_nil, or_false] at brace
    rcases brace with (blank | listed) | blank
    · cases blank
    · rcases mem_joined listed with between | ⟨name, member, inside⟩
      · exact absurd between (by decide)
      · exact (words name member).free (by decide) inside
    · cases blank
  have read := names?_written words some
  have source := source?_sourceText quotable
  generalize ' ' :: joined ", ".toList names ++ [' '] = inside at free read ⊢
  generalize (sourceText module).toList = behind at source ⊢
  have braced : reexport? ('{' :: (inside ++ '}' :: behind)) =
      .some (.exportNames (names.map String.ofList) module) := by
    show (do
      let (inside, rest) ← cutAt? ['}'] (inside ++ '}' :: behind)
      let names ← names? inside
      let module ← source? rest
      Option.some (Statement.exportNames names module)) = _
    rw [cutAt?_free free, Option.bind_eq_bind, Option.bind_some]
    simp only [read, source, Option.bind_eq_bind, Option.bind_some]
  rw [statement?, dropHead?_append]
  simp only [braced, Option.some_or]

/-- The head of a declaration is read as declaring its name, whatever follows behind. -/
theorem statement?_declaration (word : Word name) {keyword : String}
    (known : keyword ∈ ["interface ", "enum ", "type "])
    (stops : ∀ c ∈ rest.head?, isWordPart c = false) :
    statement? ("export ".toList ++ (keyword.toList ++ (name ++ rest))) =
      some (.declaration true (String.ofList name)) := by
  simp only [List.mem_cons, List.not_mem_nil, or_false] at known
  have found : (["interface ", "enum ", "type "].findSome? fun word =>
      dropHead? word.toList (keyword.toList ++ (name ++ rest))) = some (name ++ rest) := by
    rcases known with rfl | rfl | rfl <;> rfl
  have declares : declared? (keyword.toList ++ (name ++ rest)) = some (String.ofList name) := by
    rw [declared?, found, Option.bind_eq_bind, Option.bind_some, word.takeWhile stops]
    exact if_pos (isWord_iff.mpr word)
  have other : reexport? (keyword.toList ++ (name ++ rest)) = none := by
    rcases known with rfl | rfl | rfl <;> rfl
  rw [statement?, dropHead?_append]
  simp only [other, declares, Option.none_or, Option.map_some]

/-- A line that says nothing on its own. -/
structure Silent (line : List Char) : Prop where
  plain : PlainLine line
  silent : statement? line = none

/-- An indented line says nothing on its own, so neither members nor comment lines count. -/
theorem silent_indented (single : SingleLine line) (indented : line.head? = some ' ') :
    Silent line := by
  obtain ⟨more, rfl⟩ := List.head?_eq_some_iff.mp indented
  exact ⟨⟨single, by simp⟩, rfl⟩

/-- Nothing is read off silent lines. -/
theorem nothing_said {written : List String} (silent : ∀ line ∈ written, Silent line.toList) :
    written.filterMap (fun line => statement? line.toList) = [] :=
  List.filterMap_eq_nil_iff.mpr fun line member => (silent line member).silent

/-- Lines below the first one add nothing to it. -/
theorem silent_below {first : String} {inner : List String} {statement : Statement}
    (plain : PlainLine first.toList) (read : statement? first.toList = some statement)
    (silent : ∀ line ∈ inner, Silent line.toList) :
    (∀ line ∈ first :: inner, PlainLine line.toList) ∧
      (first :: inner).filterMap (fun line => statement? line.toList) = [statement] := by
  refine ⟨List.forall_mem_cons.mpr ⟨plain, fun line member => (silent line member).plain⟩, ?_⟩
  rw [List.filterMap_cons, read, nothing_said silent]

end ApiScribe.TypeScript
