import ApiScribe.Proofs.Expr.Constants
import ApiScribe.Proofs.TypeScript.Reading
import ApiScribe.Proofs.TypeScript.References

/-! Type expressions mean the types of the fields that they are written for.
What a type stands for is told member by member of its union, without a text;
the reader finds the same members in the text, because whatever holds a bar is
put in brackets before it becomes an item. -/
namespace ApiScribe.TypeScript
open Text

variable {text more rest inner : List Char} {row others : List Token} {c : Char}

/-! Words and marks in a text. -/

private theorem tokens?_eq (text : List Char) :
    tokens? text =
      match text.dropWhile (· == ' ') with
      | [] => some []
      | c :: rest => (token? (c :: rest)).bind fun (token, after) =>
          (tokens? after).map (token :: ·) := by
  rw [tokens?]
  split
  · next shown => rw [shown]
  · next c rest shown =>
    rw [shown]
    split
    · next absent => simp only [absent, Option.bind_none]
    · next token after found => simp only [found, Option.bind_some]

private theorem tokens?_blank (rest : List Char) : tokens? (' ' :: rest) = tokens? rest := by
  rw [tokens?_eq, tokens?_eq rest, List.dropWhile_cons_of_pos (by rfl)]

private theorem tokens?_cons (solid : c ≠ ' ') (read : token? (c :: rest) = some (token, after)) :
    tokens? (c :: rest) = (tokens? after).map (token :: ·) := by
  rw [tokens?_eq, List.dropWhile_cons_of_neg (by simpa using solid)]
  simp only [read, Option.bind_some]

/-- A text that goes on behind a word without being taken for a part of it. -/
def Separated (rest : List Char) : Prop := ∀ c ∈ rest.head?, isWordPart c = false ∧ c ≠ '<'

/-- A text with the row of its tokens, whatever is written behind it. -/
def Spells (text : List Char) (row : List Token) : Prop :=
  ∀ rest, Separated rest → tokens? (text ++ rest) = (tokens? rest).map (row ++ ·)

namespace Spells

private theorem nil : Spells [] [] := fun rest _ => by
  rw [List.nil_append]
  cases TypeScript.tokens? rest <;> rfl

theorem tokens? (spells : Spells text row) : TypeScript.tokens? text = some row := by
  have alone := spells [] (fun c absent => by cases absent)
  have done : TypeScript.tokens? [] = some [] := by
    rw [tokens?_eq]
    rfl
  rw [List.append_nil, done] at alone
  simpa using alone

private theorem append (first : Spells text row) (second : Spells more others)
    (apart : Separated more) :
    Spells (text ++ more) (row ++ others) := by
  intro rest separated
  have joint : Separated (more ++ rest) := by
    cases more with
    | nil => exact separated
    | cons c tail => exact apart
  rw [List.append_assoc, first _ joint, second _ separated, Option.map_map]
  simp only [Function.comp_def, List.append_assoc]

private theorem blank (spells : Spells text row) :
    Spells (' ' :: text) row := fun rest separated => by
  rw [List.cons_append, tokens?_blank, spells rest separated]

/-- A text whose first token ends where the rest begins. -/
theorem cons (solid : c ≠ ' ')
    (read : ∀ rest, token? (c :: text ++ rest) = some (token, more ++ rest))
    (spells : Spells more row) : Spells (c :: text) (token :: row) := by
  intro rest separated
  have here := read rest
  rw [List.cons_append] at here
  rw [List.cons_append, tokens?_cons solid here, spells rest separated, Option.map_map]
  rfl

private theorem brackets (spells : Spells text row) :
    Spells ('[' :: ']' :: text) (.brackets :: row) :=
  cons (by decide) (fun _ => rfl) spells

private theorem bar (spells : Spells text row) : Spells ('|' :: text) (.bar :: row) :=
  cons (by decide) (fun _ => rfl) spells

private theorem opening (spells : Spells text row) : Spells ('(' :: text) (.opening :: row) :=
  cons (by decide) (fun _ => rfl) spells

private theorem closing (spells : Spells text row) : Spells (')' :: text) (.closing :: row) :=
  cons (by decide) (fun _ => rfl) spells

end Spells

/-- A name of word characters that no digit begins. -/
structure Word (name : List Char) : Prop where
  starts : ∃ c rest, name = c :: rest ∧ isWordStart c = true
  parts : ∀ c ∈ name, isWordPart c = true

/-- The characters that begin tokens other than words and plain numbers. -/
def reserved : List Char := ['[', '\'', '-', '|', '(', ')', ',', '>']

private theorem token?_unreserved (free : c ∉ reserved) (rest : List Char) :
    token? (c :: rest) =
      if isWordStart c then some (wordToken (c :: rest))
      else if isDigit c then numberToken? false (c :: rest)
      else none := by
  simp only [reserved, List.mem_cons, List.not_mem_nil, or_false, not_or] at free
  obtain ⟨square, quote, minus, bar, opening, closing, comma, greater⟩ := free
  have unmarked : marks.lookup c = none := by
    simp [marks, List.lookup_cons, beq_eq_false_iff_ne.mpr bar, beq_eq_false_iff_ne.mpr opening,
      beq_eq_false_iff_ne.mpr closing, beq_eq_false_iff_ne.mpr comma,
      beq_eq_false_iff_ne.mpr greater]
  rw [token?.eq_def]
  split
  · next same => cases same
  · next same =>
    cases same
    exact absurd rfl square
  · next same =>
    cases same
    exact absurd rfl quote
  · next same =>
    cases same
    exact absurd rfl minus
  · next same =>
    cases same
    simp only [unmarked]

private theorem unreserved_of (kind : Char → Bool) (none : reserved.any kind = false)
    (holds : kind c = true) : c ∉ reserved :=
  fun member => List.any_eq_false.mp none c member holds

private theorem Word.token? {name : List Char} (word : Word name) (separated : Separated rest) :
    TypeScript.token? (name ++ rest) = some (.operand (.name (String.ofList name)), rest) := by
  obtain ⟨c, tail, rfl, starts⟩ := word.starts
  have stops : rest.takeWhile isWordPart = [] := by
    cases rest with
    | nil => rfl
    | cons d others => exact List.takeWhile_cons_of_neg (by simp [(separated d rfl).1])
  have taken : (c :: tail ++ rest).takeWhile isWordPart = c :: tail := by
    rw [List.takeWhile_append_of_pos word.parts, stops, List.append_nil]
  have free := unreserved_of isWordStart (by decide) starts
  rw [List.cons_append, token?_unreserved free, if_pos starts, ← List.cons_append, wordToken]
  simp only [taken, List.drop_left]
  split
  · next after => exact absurd rfl (separated '<' rfl).2
  · rfl

private theorem Spells.word {name : List Char} (word : Word name) :
    Spells name [.operand (.name (String.ofList name))] := by
  intro rest separated
  have read := word.token? separated
  obtain ⟨c, tail, rfl, starts⟩ := word.starts
  have solid : c ≠ ' ' := by
    rintro rfl
    cases starts
  rw [List.cons_append] at read ⊢
  rw [tokens?_cons solid read]
  rfl

/-- Decimal digits are read back up to a character that is none of them. -/
private theorem numberToken?_toDigits (negative : Bool) (number : Nat)
    (separated : Separated rest) :
    numberToken? negative (Nat.toDigits 10 number ++ rest) =
      some (.operand (.literal (.int (if negative then -(number : Int) else number))), rest) := by
  have stops : rest.takeWhile isDigit = [] := by
    cases rest with
    | nil => rfl
    | cons c others =>
      have undigit : ¬isDigit c = true := by
        intro digit
        have part := (separated c rfl).1
        rw [isWordPart, isAlphanumeric_of_isDigit digit] at part
        cases part
      exact List.takeWhile_cons_of_neg undigit
  have taken : (Nat.toDigits 10 number ++ rest).takeWhile isDigit = Nat.toDigits 10 number := by
    rw [List.takeWhile_append_of_pos fun c member => isDigit_of_mem_toDigits member, stops,
      List.append_nil]
  rw [numberToken?]
  simp only [taken, readDigits?_toDigits, Option.map_some, List.drop_left]

private theorem Spells.number (number : Int) :
    Spells (toString number).toList [.operand (.literal (.int number))] := by
  intro rest separated
  rw [integer_chars]
  by_cases negative : number < 0
  · have read : token? ('-' :: (Nat.toDigits 10 number.natAbs ++ rest)) =
        some (.operand (.literal (.int number)), rest) := by
      have value : -(number.natAbs : Int) = number := by omega
      rw [token?, numberToken?_toDigits true _ separated, if_pos rfl, value]
    rw [if_pos negative, List.cons_append, tokens?_cons (by decide) read]
    rfl
  · have value : (number.natAbs : Int) = number := by omega
    have read := numberToken?_toDigits false number.natAbs separated
    rw [if_neg Bool.false_ne_true, value] at read
    obtain ⟨c, digits, shown⟩ := List.exists_cons_of_ne_nil
      (Nat.toDigits_ne_nil (n := number.natAbs) (b := 10))
    have digit : isDigit c = true := isDigit_of_mem_toDigits (shown ▸ List.mem_cons_self)
    have free := unreserved_of isDigit (by decide) digit
    have unlettered : ¬isWordStart c = true := by
      rw [isWordStart, Bool.or_eq_true, beq_iff_eq]
      rintro (letter | rfl)
      · have undigit := Expr.isDigit_of_isLetter letter
        rw [digit] at undigit
        cases undigit
      · cases digit
    have solid : c ≠ ' ' := by
      rintro rfl
      cases digit
    rw [shown, List.cons_append] at read
    rw [if_neg negative, shown, List.cons_append, tokens?_cons solid
      (by rw [token?_unreserved free, if_neg unlettered, if_pos digit, read])]
    rfl

/-! String literals. -/

/-- Each character is read back from its escape, and nothing more is taken. -/
private theorem stringChar?_escapeChar (c : Char) (rest : List Char) :
    stringChar? (escapeChar c ++ rest) = some (c, rest) := by
  rw [escapeChar]
  split
  · next same => rw [same]; rfl
  split
  · next same => rw [same]; rfl
  split
  · next same => rw [same]; rfl
  split
  · next same => rw [same]; rfl
  split
  · next same => rw [same]; rfl
  split
  · next same => rw [same]; rfl
  next backslash quote feed carriage line paragraph =>
    have free : c ∉ unwritten := by
      simp [unwritten, backslash, quote, feed, carriage, line, paragraph]
    rw [List.singleton_append, stringChar?.eq_def]
    split
    case h_6 same =>
      cases same
      rw [if_neg free]
    case h_7 same => cases same
    all_goals
      next same =>
        cases same
        exact absurd rfl backslash

/-- A string ends at the first quote without a backslash. -/
private theorem stringBody?_escaped (text rest : List Char) :
    stringBody? (text.flatMap escapeChar ++ '\'' :: rest) = some (text, rest) := by
  induction text with
  | nil =>
    rw [List.flatMap_nil, List.nil_append, stringBody?]
    rfl
  | cons c others ih =>
    rw [List.flatMap_cons, List.append_assoc, stringBody?]
    split
    · next d more found =>
      rw [stringChar?_escapeChar] at found
      cases found
      rw [ih]
      rfl
    · next absent =>
      rw [stringChar?_escapeChar] at absent
      cases absent

theorem Spells.literal (value : ChoiceValue) :
    Spells (literalText value) [.operand (.literal value)] := by
  cases value with
  | int number => exact .number number
  | str text =>
    intro rest _
    have read : token? ('\'' :: (text.toList.flatMap escapeChar ++ '\'' :: rest)) =
        some (.operand (.literal (.str text)), rest) := by
      rw [token?, stringBody?_escaped, Option.map_some]
      simp only [String.ofList_toList]
    have shown : literalText (.str text) ++ rest =
        '\'' :: (text.toList.flatMap escapeChar ++ '\'' :: rest) := by
      simp [literalText]
    rw [shown, tokens?_cons (by decide) read]
    rfl

/-! Readings. -/

/-- A reading in which the members of a union have been read one after the other. -/
def Reading.after (reading : Reading) (members : List TypeForm) : Reading :=
  { reading with
    members := reading.members ++ members.dropLast
    operand := members.getLast? }

/-- A text that is read as the members of a union wherever an operand is due. -/
def Reads (text : List Char) (members : List TypeForm) : Prop :=
  ∃ row, Spells text row ∧ ∀ reading : Reading, reading.operand = none →
    row.foldlM Reading.step? reading = some (reading.after members)

namespace Reads

variable {members further : List TypeForm} {form : TypeForm}

private theorem operand (spells : Spells text [.operand form]) : Reads text [form] := by
  refine ⟨_, spells, fun reading due => ?_⟩
  simp [Reading.step?, due, Reading.after]

/-- A bar between two unions makes one of them. -/
theorem or (first : Reads text members) (second : Reads more further) (some : members ≠ [])
    (others : further ≠ []) : Reads (text ++ (unionMark ++ more)) (members ++ further) := by
  obtain ⟨row, spells, reads⟩ := first
  obtain ⟨tail, spellsTail, readsTail⟩ := second
  have barred : Spells (unionMark ++ more) (.bar :: tail) := .blank (.bar (.blank spellsTail))
  refine ⟨row ++ .bar :: tail, spells.append barred ?_, fun reading due => ?_⟩
  · intro c first
    cases first
    decide
  · obtain ⟨front, last, rfl⟩ := (List.eq_nil_or_concat' members).resolve_left some
    have crossed : (reading.after (front ++ [last])).step? .bar =
        Option.some
          { reading with members := reading.members ++ (front ++ [last]), operand := none } := by
      simp [Reading.step?, Reading.after]
    have arrived := readsTail
      { reading with members := reading.members ++ (front ++ [last]), operand := none } rfl
    rw [List.foldlM_append, reads reading due]
    simp only [Option.bind_eq_bind, Option.bind_some, List.foldlM_cons, crossed, arrived]
    have whole : reading.members ++ (front ++ [last]) ++ further.dropLast =
        reading.members ++ (front ++ [last] ++ further).dropLast := by
      rw [List.dropLast_append_of_ne_nil others, List.append_assoc]
    simp only [Reading.after, whole, List.getLast?_append_of_ne_nil _ others]

private theorem joined {texts : List (List Char)} {forms : List TypeForm}
    (each : List.Forall₂ (fun text form => Reads text [form]) texts forms) (some : forms ≠ []) :
    Reads (joined unionMark texts) forms := by
  induction each with
  | nil => exact absurd rfl some
  | @cons text form texts forms here below ih =>
    cases below with
    | nil => exact here
    | @cons next nextForm others otherForms there further =>
      have tail := ih (List.cons_ne_nil _ _)
      rw [joined_cons_cons, List.append_assoc]
      exact here.or tail (List.cons_ne_nil _ _) (List.cons_ne_nil _ _)

/-- An array has the whole union as its item, in brackets or because the union
has one member. -/
theorem array (reads : Reads inner members) (some : members ≠ [])
    (plain : contains unionMark inner = false → ∃ only, members = [only]) :
    Reads
      (if contains unionMark inner then '(' :: inner ++ [')', '[', ']'] else inner ++ ['[', ']'])
      [.array (.ofMembers members)] := by
  obtain ⟨row, spells, read⟩ := reads
  have item : Spells ['[', ']'] [.brackets] := .brackets .nil
  split
  · have closed : Spells [')', '[', ']'] [.closing, .brackets] := .closing item
    refine ⟨.opening :: (row ++ [.closing, .brackets]), ?_, fun reading due => ?_⟩
    · exact .opening (spells.append closed fun c first => by cases first; decide)
    · obtain ⟨front, last, rfl⟩ := (List.eq_nil_or_concat' members).resolve_left some
      have opened : reading.step? .opening = Option.some (reading.into .group) := by
        rw [Reading.step?, due]
        rfl
      have inside := read (reading.into .group) rfl
      simp only [List.foldlM_cons, opened, Option.bind_eq_bind, Option.bind_some,
        List.foldlM_append, inside]
      simp [Reading.after, Reading.into, Reading.step?, Reading.closed?]
  · next absent =>
    obtain ⟨only, rfl⟩ := plain (by simpa using absent)
    refine ⟨row ++ [.brackets], spells.append item fun c first => by cases first; decide,
      fun reading due => ?_⟩
    rw [List.foldlM_append, read reading due]
    simp [Reading.after, Reading.step?, TypeForm.ofMembers]

/-- A text that has been read to its end is understood as the union of its members. -/
theorem readType? {text : String} (reads : Reads text.toList members) (some : members ≠ []) :
    TypeScript.readType? text = Option.some (.ofMembers members) := by
  obtain ⟨row, spells, read⟩ := reads
  obtain ⟨front, last, rfl⟩ := (List.eq_nil_or_concat' members).resolve_left some
  rw [TypeScript.readType?, spells.tokens?]
  simp [read {} rfl, Reading.after, Reading.closed?]

end Reads

/-! What a field stands for. -/

/-- The members of the types that carry nothing. -/
def scalarForms : List (List FieldType × List TypeForm) := [
  ([.string, .email, .url, .uuid, .slug, .date, .datetime, .time, .duration, .hyperlink],
    [.name "string"]),
  ([.integer, .float, .decimal], [.name "number"]),
  ([.boolean], [.name "boolean"]),
  ([.file, .image], [.name "File", .name "string"]),
  ([.json, .object], [.applied "Record" [.name "string", .name "any"]]),
  ([.primaryKey], [.name "number", .name "string"]),
  ([.method, .unknown], [.name "any"])]

/-- The members of the union that a type stands for, given the choices of its
field. A list has one member, the array of the whole type of its items. -/
def membersOf (resolve? : String → Option KnownSerializer) (choices : List Choice) :
    FieldType → List TypeForm
  | .listOf item => [.array (.ofMembers (membersOf resolve? choices item))]
  | .nested className =>
    [.name (((resolve? className).map KnownSerializer.interface).getD "any")]
  | .choice =>
    if choices.isEmpty then [.name "string"] else choices.map fun choice => .literal choice.value
  | scalar => ((scalarForms.find? fun row => row.1.contains scalar).map (·.2)).getD []

/-- Whether the members say that anything may stand there. -/
def isAny : List TypeForm → Bool
  | [.name text] => text == "any"
  | _ => false

/-- The type that a field stands for. One that may be null has null as its last
member, unless anything may stand there already. -/
def formOf (resolve? : String → Option KnownSerializer) (field : Field) : TypeForm :=
  let members := membersOf resolve? field.choices field.type
  .ofMembers (if field.nullable && !isAny members then members ++ [.name "null"] else members)

variable {resolve? : String → Option KnownSerializer} {choices : List Choice}

private theorem Word.reads {name : String} (word : Word name.toList) :
    Reads name.toList [.name name] := by
  have spells := Spells.word word
  rw [String.ofList_toList] at spells
  exact .operand spells

theorem word_of_chars {name : List Char}
    (plain : (name.head?.any isWordStart && name.all isWordPart) = true) : Word name := by
  rw [Bool.and_eq_true, List.all_eq_true] at plain
  obtain ⟨starts, parts⟩ := plain
  cases name with
  | nil => cases starts
  | cons c rest => exact ⟨⟨c, rest, rfl, starts⟩, parts⟩

private theorem word_of_isIdentifier {name : List Char}
    (identifier : Expr.isIdentifier name = true) :
    Word name := by
  rw [Expr.isIdentifier, Bool.and_eq_true] at identifier
  obtain ⟨dotted, pointless⟩ := identifier
  have named := Expr.named_of_isDottedName dotted
  have noPoint : '.' ∉ name := by simpa using pointless
  obtain ⟨c, rest, rfl⟩ := List.exists_cons_of_ne_nil named.nonempty
  refine ⟨⟨c, rest, rfl, ?_⟩, fun d member => ?_⟩
  · simpa [isWordStart] using named.head c rfl
  · have kind := named.chars d member
    have other : d ≠ '.' := fun same => noPoint (same ▸ member)
    simpa [Expr.isNameChar, isWordPart, other] using kind

/-- A name without its tail begins as the name does, and something is left of it. -/
theorem withoutTail_cases (tail name : List Char) :
    Naming.withoutTail tail name = name ∨
      ∃ c rest, Naming.withoutTail tail name = c :: rest ∧ c :: rest <+: name := by
  rw [Naming.withoutTail]
  split
  · next c rest cut =>
    refine .inr ⟨c, rest, rfl, ?_⟩
    rw [dropTail?, Option.map_eq_some_iff] at cut
    obtain ⟨reversed, dropped, same⟩ := cut
    rw [dropHead?] at dropped
    split at dropped
    · cases dropped
      rw [← same, ← List.reverse_suffix, List.reverse_reverse]
      exact List.drop_suffix _ _
    · cases dropped
  · exact .inl rfl

private theorem word_interfaceName {className : String} (word : Word className.toList) :
    Word (interfaceName className).toList := by
  rw [interfaceName, String.toList_ofList]
  rcases withoutTail_cases "Serializer".toList className.toList with same | ⟨c, rest, same, front⟩
  · rwa [same]
  · obtain ⟨first, others, whole, starts⟩ := word.starts
    rw [same]
    refine ⟨⟨c, rest, rfl, ?_⟩, fun d member => word.parts d (front.subset member)⟩
    rw [whole, List.cons_prefix_cons] at front
    exact front.1 ▸ starts

/-- The interface that is meant is called after the class. -/
theorem resolve?_interface {apps : List App} {app : Option String} {className : String}
    (meant : (SerializerIndex.ofApps apps).resolve? app className = some known) :
    known.interface = interfaceName className := by
  obtain ⟨member, rfl⟩ := mem_of_resolve? meant
  exact interface_of_mem member

private theorem membersOf_ne_nil (resolve? : String → Option KnownSerializer)
    (choices : List Choice) (type : FieldType) : membersOf resolve? choices type ≠ [] := by
  cases type
  case choice =>
    rw [membersOf]
    split
    · exact List.cons_ne_nil _ _
    · next some => simpa using some
  all_goals exact List.cons_ne_nil _ _

/-- A text of several members holds a bar. -/
theorem single_of_barless (type : FieldType)
    (barless : contains unionMark (typeOf resolve? choices type).chars = false) :
    ∃ only, membersOf resolve? choices type = [only] := by
  have barred (first second : List Char) (others : List (List Char)) :
      contains unionMark (joined unionMark (first :: second :: others)) = true := by
    rw [joined_cons_cons, List.append_assoc]
    exact contains_append _ _ _
  cases type with
  | choice =>
    cases choices with
    | nil => exact ⟨_, rfl⟩
    | cons choice others =>
      cases others with
      | nil => exact ⟨_, rfl⟩
      | cons second others => exact absurd barless (by simp [typeOf, TypeExpr.chars,
          TypeExpr.memberChars, barred])
  | file | image | primaryKey =>
    exact absurd barless (by simp [typeOf, TypeExpr.chars, TypeExpr.memberChars, barred])
  | _ => exact ⟨_, rfl⟩

private theorem reads_plain (name : String)
    (plain : (name.toList.head?.any isWordStart && name.toList.all isWordPart) = true) :
    Reads (TypeExpr.name name).chars [.name name] :=
  Word.reads (word_of_chars plain)

private theorem reads_any : Reads TypeExpr.any.chars [.name "any"] := reads_plain "any" (by decide)

private theorem reads_anyObject :
    Reads TypeExpr.anyObject.chars [.applied "Record" [.name "string", .name "any"]] := by
  have any : Spells "any".toList [.operand (.name "any")] := .word (word_of_chars (by decide))
  have string : Spells "string".toList [.operand (.name "string")] :=
    .word (word_of_chars (by decide))
  have greater : Spells ['>'] [.greater] := .cons (by decide) (fun _ => rfl) .nil
  have second := (any.append greater fun c first => by cases first; decide).blank
  have comma : Spells (',' :: _) (.comma :: _) := .cons (by decide) (fun _ => rfl) second
  have first := string.append comma fun c first => by cases first; decide
  have whole : Spells "Record<string, any>".toList (.applying "Record" :: _) :=
    .cons (by decide) (fun _ => rfl) first
  refine ⟨_, whole, fun reading due => ?_⟩
  simp [Reading.step?, due, Reading.into, Reading.closed?, Reading.after, TypeForm.ofMembers]

/-- A union of literals is read as the list of them. -/
private theorem reads_choices (some : choices ≠ []) :
    Reads
      (joined unionMark (TypeExpr.memberChars (choices.map fun choice => .literal choice.value)))
      (choices.map fun choice => .literal choice.value) := by
  refine Reads.joined ?_ (by simpa using some)
  clear some
  induction choices with
  | nil => exact .nil
  | cons choice others ih => exact .cons (Reads.operand (Spells.literal choice.value)) ih

/-- The text of a type is read as its members. -/
theorem typeOf_reads {type : FieldType}
    (words : ∀ className ∈ nestedClass? type, ∀ known, resolve? className = some known →
      Word known.interface.toList) :
    Reads (typeOf resolve? choices type).chars (membersOf resolve? choices type) := by
  induction type with
  | listOf item ih =>
    exact Reads.array (ih words) (membersOf_ne_nil resolve? choices item)
      (single_of_barless item)
  | nested className =>
    rw [typeOf, membersOf]
    cases meant : resolve? className with
    | none => exact reads_any
    | some known => exact (words className rfl known meant).reads
  | choice =>
    rw [typeOf, membersOf]
    split
    · exact reads_plain "string" (by decide)
    · next some => exact reads_choices (by simpa using some)
  | file | image =>
    exact (reads_plain "File" (by decide)).or (reads_plain "string" (by decide))
      (List.cons_ne_nil _ _) (List.cons_ne_nil _ _)
  | primaryKey =>
    exact (reads_plain "number" (by decide)).or (reads_plain "string" (by decide))
      (List.cons_ne_nil _ _) (List.cons_ne_nil _ _)
  | json | object => exact reads_anyObject
  | method | unknown => exact reads_any
  | integer | float | decimal => exact reads_plain "number" (by decide)
  | boolean => exact reads_plain "boolean" (by decide)
  | _ => exact reads_plain "string" (by decide)

/-- Anything may stand where the text says so, and nowhere else. -/
theorem isAny_iff {type : FieldType}
    (reads : Reads (typeOf resolve? choices type).chars (membersOf resolve? choices type)) :
    isAny (membersOf resolve? choices type) = true ↔
      (typeOf resolve? choices type).text = "any" := by
  constructor
  · intro admits
    cases type with
    | choice =>
      rw [membersOf] at admits
      cases choices with
      | nil => cases admits
      | cons choice others => cases others <;> cases admits
    | nested className =>
      rw [membersOf] at admits
      rw [typeOf]
      cases meant : resolve? className with
      | none => rfl
      | some known =>
        have same : known.interface = "any" := by simpa [meant, isAny] using admits
        simp [same, TypeExpr.text, TypeExpr.chars]
    | method | unknown => rfl
    | _ => cases admits
  · -- A text has one reading, and that of the word alone is its name.
    intro same
    have shown : (typeOf resolve? choices type).chars = "any".toList := by
      rw [← same, TypeExpr.text, String.toList_ofList]
    rw [shown] at reads
    have read := reads.readType? (membersOf_ne_nil resolve? choices type)
    rw [reads_any.readType? (List.cons_ne_nil _ _)] at read
    have one := Option.some.inj read
    generalize membersOf resolve? choices type = members at one
    rcases members with _ | ⟨only, _ | ⟨second, rest⟩⟩
    · cases one
    · have named : .name "any" = only := one
      rw [← named]
      rfl
    · cases one

/-- Null is one more member of a union, unless the type takes it in already. -/
private theorem orNull_reads {type : TypeExpr} {members : List TypeForm} (some : members ≠ [])
    (reads : Reads type.chars members) (same : isAny members = true ↔ type.text = "any") :
    Reads type.orNull.chars (if isAny members then members else members ++ [.name "null"]) := by
  rw [TypeExpr.orNull]
  by_cases admits : isAny members = true
  · rwa [if_pos (same.mp admits), if_pos admits]
  · rw [if_neg fun text => admits (same.mpr text), if_neg admits]
    have null := reads.or (reads_plain "null" (by decide)) some (List.cons_ne_nil _ _)
    rw [TypeExpr.chars, TypeExpr.memberChars, TypeExpr.memberChars, TypeExpr.memberChars,
      joined_cons_cons, List.append_assoc]
    exact null

/-- The text of the type of a field is read to its end as what the field stands
for, with the whole type of the items in every array, whatever the choices and
the serializers are that it names. -/
theorem typeOfField_read (apps : List App) (app : Option String) (field : Field)
    (identifier : ∀ className ∈ nestedClass? field.type,
      Expr.isIdentifier className.toList = true) :
    readType? (typeOfField ((SerializerIndex.ofApps apps).resolve? app) field).text =
      some (formOf ((SerializerIndex.ofApps apps).resolve? app) field) := by
  generalize known : (SerializerIndex.ofApps apps).resolve? app = resolve?
  have words : ∀ className ∈ nestedClass? field.type, ∀ known, resolve? className = some known →
      Word known.interface.toList := by
    intro className nests found meant
    subst known
    rw [resolve?_interface meant]
    exact word_interfaceName (word_of_isIdentifier (identifier className nests))
  have reads : Reads (typeOf resolve? field.choices field.type).chars _ := typeOf_reads words
  have nonempty := membersOf_ne_nil resolve? field.choices field.type
  simp only [typeOfField, formOf]
  cases field.nullable with
  | false =>
    refine Reads.readType? ?_ nonempty
    simpa [TypeExpr.text] using reads
  | true =>
    refine Reads.readType? ?_ ?_
    · have read := orNull_reads nonempty reads (isAny_iff reads)
      cases admits : isAny (membersOf resolve? field.choices field.type) <;>
        simpa [TypeExpr.text, admits] using read
    · split
      · exact List.append_ne_nil_of_left_ne_nil nonempty _
      · exact nonempty

/-- Buyers in groups, or none at all. -/
def buyers : Field :=
  { name := "buyers", type := .listOf (.listOf (.nested "UserSerializer")), nullable := true }

theorem buyers_read :
    Expr.isIdentifier "UserSerializer".toList = true ∧
      (typeOfField ((SerializerIndex.ofApps [orderApp, userApp]).resolve? none) buyers).text =
        "User[][] | null" ∧
      readType? "User[][] | null" =
        some (.union [.array (.array (.name "User")), .name "null"]) := by
  have identifier : Expr.isIdentifier "UserSerializer".toList = true := by decide
  have written : (typeOfField ((SerializerIndex.ofApps [orderApp, userApp]).resolve? none)
      buyers).text = "User[][] | null" := by decide
  have read := typeOfField_read [orderApp, userApp] none buyers
    (fun className nests => Option.some.inj nests ▸ identifier)
  refine ⟨identifier, written, ?_⟩
  rw [written] at read
  exact read

end ApiScribe.TypeScript
