import ApiScribe.Expr.Reader
import ApiScribe.Proofs.Expr.Constants
import ApiScribe.Proofs.Integers

/-! Written values are read back. A value is written from the texts of its
parts, each of which a scan passes over in one piece, so that the reader cuts
the whole exactly where the writer put it together. -/
namespace ApiScribe
open Text ApiScribe.Expr
open Value (print printItems printEntries printNamed separator)

/-- The values whose text says all about them: no floats, no texts that were
not understood, and strings of one line. The three names of constants are no
names, and integers have 64 bits. -/
inductive Value.Literal : Value → Prop
  | str (oneLine : '\n' ∉ text.toList) : Literal (.str text)
  | int (least : -Int.pow 2 63 ≤ number) (most : number < Int.pow 2 63) : Literal (.int number)
  | bool (flag : Bool) : Literal (.bool flag)
  | none : Literal .none
  | name (valid : isDottedName dotted.toList = true) (free : dotted ∉ ["None", "True", "False"]) :
    Literal (.name dotted)
  | list {items : List Value} (each : ∀ item ∈ items, Literal item) : Literal (.list items)
  | tuple {items : List Value} (each : ∀ item ∈ items, Literal item) : Literal (.tuple items)
  | dict {entries : List (Value × Value)} (keys : ∀ entry ∈ entries, Literal entry.1)
    (values : ∀ entry ∈ entries, Literal entry.2) : Literal (.dict entries)
  | call {args : List Value} {named : List (String × Value)}
    (valid : isDottedName callee.toList = true) (each : ∀ arg ∈ args, Literal arg)
    (keys : ∀ arg ∈ named, isIdentifier arg.1.toList = true)
    (values : ∀ arg ∈ named, Literal arg.2) : Literal (.call callee args named)

namespace Expr

variable {text inside rest : List Char} {value : Value} {c opening closing : Char}

private theorem named_of_isIdentifier (identifier : isIdentifier text = true) : Named text := by
  rw [isIdentifier, Bool.and_eq_true] at identifier
  exact named_of_isDottedName identifier.1

/-! What is written. -/

/-- The marks that stand in no written value outside of brackets and literals. -/
def valueMarks : List Char := [',', ':', '=', '*']

/-- The text of an entry. -/
def entryText (entry : Value × Value) : List Char := entry.1.print ++ ':' :: ' ' :: entry.2.print

/-- The text of a named argument. -/
def argText (arg : String × Value) : List Char := arg.1.toList ++ '=' :: arg.2.print

theorem printItems_eq (items : List Value) : printItems items = items.map print := by
  induction items with
  | nil => rfl
  | cons item rest ih => rw [printItems, ih, List.map_cons]

theorem printEntries_eq (entries : List (Value × Value)) :
    printEntries entries = entries.map entryText := by
  induction entries with
  | nil => rfl
  | cons entry rest ih =>
    rw [printEntries, ih, List.map_cons]
    rfl

private theorem printNamed_eq (named : List (String × Value)) :
    printNamed named = named.map argText := by
  induction named with
  | nil => rfl
  | cons arg rest ih =>
    rw [printNamed, ih, List.map_cons]
    rfl

theorem print_call (callee : String) (args : List Value) (named : List (String × Value)) :
    (Value.call callee args named).print = callee.toList ++
      ('(' :: joined separator (args.map print ++ named.map argText) ++ [')']) := by
  rw [print, printItems_eq, printNamed_eq, List.append_assoc]

/-- What stands between the brackets of a tuple. -/
def tupleInside : List Value → List Char
  | [only] => only.print ++ [',']
  | items => joined separator (items.map print)

theorem print_tuple (items : List Value) :
    (Value.tuple items).print = '(' :: tupleInside items ++ [')'] := by
  match items with
  | [] => rfl
  | [only] => simp [print, tupleInside]
  | first :: second :: others =>
    rw [tupleInside, ← printItems_eq]
    · rfl
    · simp

private theorem round : Brackets '(' ')' := ⟨rfl, rfl⟩

private theorem square : Brackets '[' ']' := ⟨rfl, rfl⟩

private theorem curly : Brackets '\x7b' '\x7d' := ⟨rfl, rfl⟩

/-- A mark opens no text that holds it nowhere. -/
theorem Whole.head_ne (whole : Whole marks text) (mark : target ∈ marks)
    (unquoted : isQuote target = false) : text.head? ≠ some target := by
  intro first
  obtain ⟨rest, rfl⟩ := List.head?_eq_some_iff.mp first
  have found := (Whole.nil marks).cut mark unquoted rest
  rw [List.nil_append, whole.uncut mark] at found
  cases found

private theorem Brackets.tight (pair : Brackets opening closing) (inside : List Char) :
    Tight (opening :: inside ++ [closing]) := by
  have opens := pair.opens
  have closes := pair.closes
  simp only [isOpening, isClosing, Bool.or_eq_true, beq_iff_eq] at opens closes
  refine ⟨⟨opening, rfl, ?_⟩, ⟨closing, List.getLast?_concat, ?_⟩⟩
  · rcases opens with (rfl | rfl) | rfl <;> decide
  · rcases closes with (rfl | rfl) | rfl <;> decide

theorem Tight.append (first : Tight text) (second : Tight rest) (between : List Char) :
    Tight (text ++ (between ++ rest)) := by
  obtain ⟨c, head, solid⟩ := first.first
  obtain ⟨d, last, solid'⟩ := second.last
  refine ⟨⟨c, ?_, solid⟩, ⟨d, ?_, solid'⟩⟩
  · rw [List.head?_append, head]
    rfl
  · rw [List.getLast?_append, List.getLast?_append, last]
    rfl

private theorem whole_integer (number : Int) : Whole valueMarks (toString number).toList := by
  refine .of_quiet fun c member => ?_
  rcases mem_integer_chars member with digit | rfl
  · exact quiet_of_isNameChar (isNameChar_of_isDigit digit) (by decide)
  · decide

private theorem tight_integer (number : Int) : Tight (toString number).toList := by
  have solid {c : Char} (member : c ∈ (toString number).toList) : isBlank c = false := by
    rcases mem_integer_chars member with digit | rfl
    · exact isBlank_of_isNameChar (isNameChar_of_isDigit digit)
    · decide
  have some := integer_chars_ne_nil number
  exact ⟨⟨_, List.head?_eq_some_head some, solid (List.head_mem some)⟩,
    ⟨_, List.getLast?_eq_some_getLast some, solid (List.getLast_mem some)⟩⟩

private theorem whole_entry {entry : Value × Value} (key : Whole valueMarks entry.1.print)
    (value : Whole valueMarks entry.2.print) : Whole [','] (entryText entry) := by
  have comma : [','] ⊆ valueMarks := by decide
  have second : Whole [','] (':' :: ' ' :: entry.2.print) :=
    .cons rfl rfl rfl (by decide) (.cons rfl rfl rfl (by decide) (value.mono comma))
  exact (key.mono comma).append second (by simp)

private theorem whole_arg {arg : String × Value} (key : Named arg.1.toList)
    (value : Whole valueMarks arg.2.print) : Whole [',', '*'] (argText arg) := by
  have second : Whole [',', '*'] ('=' :: arg.2.print) :=
    .cons rfl rfl rfl (by decide) (value.mono (by decide))
  exact (key.whole (by decide)).append second (by simp)

private theorem whole_items {items : List Value}
    (whole : ∀ item ∈ items, Whole valueMarks item.print) :
    Whole [] (joined separator (items.map print)) :=
  whole_joined (List.forall_mem_map.mpr fun item member =>
    (whole item member).mono (List.nil_subset _))

private theorem whole_entries {entries : List (Value × Value)}
    (keys : ∀ entry ∈ entries, Whole valueMarks entry.1.print)
    (values : ∀ entry ∈ entries, Whole valueMarks entry.2.print) :
    Whole [] (joined separator (entries.map entryText)) :=
  whole_joined (List.forall_mem_map.mpr fun entry member =>
    (whole_entry (keys entry member) (values entry member)).mono (List.nil_subset _))

private theorem whole_args {args : List Value} {named : List (String × Value)}
    (each : ∀ arg ∈ args, Whole valueMarks arg.print)
    (keys : ∀ arg ∈ named, isIdentifier arg.1.toList = true)
    (values : ∀ arg ∈ named, Whole valueMarks arg.2.print) :
    Whole [] (joined separator (args.map print ++ named.map argText)) := by
  refine whole_joined fun text member => ?_
  rcases List.mem_append.mp member with member | member
  · obtain ⟨arg, listed, rfl⟩ := List.mem_map.mp member
    exact (each arg listed).mono (List.nil_subset _)
  · obtain ⟨arg, listed, rfl⟩ := List.mem_map.mp member
    exact (whole_arg (named_of_isIdentifier (keys arg listed)) (values arg listed)).mono
      (List.nil_subset _)

private theorem whole_tupleInside {items : List Value}
    (whole : ∀ item ∈ items, Whole valueMarks item.print) : Whole [] (tupleInside items) := by
  match items with
  | [] => exact .nil []
  | [only] =>
    have comma : Whole [] [','] := .cons rfl rfl rfl List.not_mem_nil (.nil [])
    exact ((whole only List.mem_cons_self).mono (List.nil_subset _)).append comma (by simp)
  | first :: second :: others => exact whole_items whole

/-- The text of a written value is whole and tight. -/
theorem print_solid (literal : value.Literal) :
    Whole valueMarks value.print ∧ Tight value.print := by
  induction literal with
  | str oneLine => exact ⟨whole_quoted oneLine valueMarks, tight_quoted _⟩
  | int _ _ => exact ⟨whole_integer _, tight_integer _⟩
  | bool flag =>
    have named : Named (Value.bool flag).print := by
      cases flag <;> exact named_of_isDottedName (by decide)
    exact ⟨named.whole (by decide), named.tight⟩
  | none =>
    have named : Named Value.none.print := named_of_isDottedName (by decide)
    exact ⟨named.whole (by decide), named.tight⟩
  | name valid free =>
    have named := named_of_isDottedName valid
    exact ⟨named.whole (by decide), named.tight⟩
  | list _ ih =>
    rw [print, printItems_eq]
    exact ⟨square.whole (whole_items fun item member => (ih item member).1) (by decide),
      square.tight _⟩
  | tuple _ ih =>
    rw [print_tuple]
    exact ⟨round.whole (whole_tupleInside fun item member => (ih item member).1) (by decide),
      round.tight _⟩
  | dict _ _ keys values =>
    have inner := whole_entries (fun entry member => (keys entry member).1)
      fun entry member => (values entry member).1
    rw [print, printEntries_eq]
    exact ⟨curly.whole inner (by decide), curly.tight _⟩
  | call valid _ keys _ each values =>
    have inner := whole_args (fun arg member => (each arg member).1) keys
      fun arg member => (values arg member).1
    have callee := named_of_isDottedName valid
    have front : Whole valueMarks _ := callee.whole (by decide)
    rw [print_call]
    refine ⟨front.append (round.whole inner (by decide)) (by simp), ?_⟩
    exact callee.tight.append (round.tight _) []

/-! What is read. -/

/-- What reads as a constant is not taken apart any further. -/
theorem shape_constant (tight : Tight text) (constant : readConstant? text = some value) :
    shape text = .atom value := by
  rw [shape, tight.trim, trimmedShape, if_neg (by simpa using tight.ne_nil), constant]

private theorem shape_compound (tight : Tight text) (constant : readConstant? text = none) :
    shape text = (bracketShape? text).getD (namedShape text) := by
  rw [shape, tight.trim, trimmedShape, if_neg (by simpa using tight.ne_nil), constant]

/-- No constant begins with a bracket. -/
theorem readConstant?_opening (opens : isOpening opening = true)
    (tight : Tight (opening :: rest)) : readConstant? (opening :: rest) = none := by
  have kinds : isQuote opening = false ∧ isLiteralLetter opening = false ∧
      (isDigit opening || opening == '-' || opening == '.') = false ∧
      opening ≠ 'N' ∧ opening ≠ 'T' ∧ opening ≠ 'F' := by
    simp only [isOpening, Bool.or_eq_true, beq_iff_eq] at opens
    rcases opens with (rfl | rfl) | rfl <;> decide
  obtain ⟨unquoted, unlettered, unnumbered, notN, notT, notF⟩ := kinds
  have string : readLiteral? ([] ++ opening :: rest) = none :=
    readLiteral?_none (fun c member => absurd member List.not_mem_nil) (by simp [unquoted, unlettered])
  have number : readNumber? (opening :: rest) = none := by
    rw [readNumber?]
    simp only [unnumbered, Bool.false_eq_true, if_false]
  rw [readConstant?, readString?_none tight string]
  simp only
  rw [if_neg (by simp [notN]), if_neg (by simp [notT]), if_neg (by simp [notF]), number]

private theorem shape_square (inner : Whole [] inside) :
    shape ('[' :: inside ++ [']']) = .list (splitTopLevel ',' inside) := by
  have constant := readConstant?_opening rfl (square.tight inside)
  rw [shape_compound (square.tight inside) constant, bracketShape?, square.enclosed inner]
  rfl

private theorem shape_round (inner : Whole [] inside) :
    shape ('(' :: inside ++ [')']) = groupShape inside := by
  have constant := readConstant?_opening rfl (round.tight inside)
  rw [shape_compound (round.tight inside) constant, bracketShape?, round.enclosed inner]
  rfl

private theorem shape_curly (inner : Whole [] inside) (dict : dictShape? inside = some shape') :
    shape ('\x7b' :: inside ++ ['\x7d']) = shape' := by
  have constant := readConstant?_opening rfl (curly.tight inside)
  rw [shape_compound (curly.tight inside) constant, bracketShape?, curly.enclosed inner]
  simp [dict]

private theorem isBlankLine_of_tight (tight : Tight text) (rest : List Char) :
    isBlankLine (text ++ rest) = false := by
  obtain ⟨c, first, solid⟩ := tight.first
  obtain ⟨others, rfl⟩ := List.head?_eq_some_iff.mp first
  rw [isBlankLine, List.cons_append, List.all_cons, solid, Bool.false_and]

/-- A tuple of one item is told from a group by its comma. -/
theorem groupShape_tuple {items : List Value} (solid : ∀ item ∈ items,
    Whole valueMarks item.print ∧ Tight item.print) :
    groupShape (tupleInside items) = .tuple (items.map print) := by
  have comma : [','] ⊆ valueMarks := by decide
  match items with
  | [] => rfl
  | [only] =>
    obtain ⟨whole, tight⟩ := solid only List.mem_cons_self
    have pieces : splitTopLevel ',' (only.print ++ [',']) = [only.print] := by
      rw [splitTopLevel_cons (whole.mono comma) tight, splitTopLevel_nil]
    have last : (trimEnd (only.print ++ [','])).getLast? = some ',' := by
      rw [trimEnd, List.reverse_concat, List.dropWhile_cons_of_neg (by decide),
        List.reverse_cons, List.reverse_reverse, List.getLast?_concat]
    rw [tupleInside, groupShape, if_neg (by simp [isBlankLine_of_tight tight]), pieces]
    simp [last]
  | first :: second :: others =>
    have pieces : splitTopLevel ',' (tupleInside (first :: second :: others)) =
        (first :: second :: others).map print :=
      splitTopLevel_joined
        (List.forall_mem_map.mpr fun item member => (solid item member).1.mono comma)
        (List.forall_mem_map.mpr fun item member => (solid item member).2)
    have blank : isBlankLine (tupleInside (first :: second :: others)) = false := by
      rw [tupleInside, List.map_cons, List.map_cons, joined_cons_cons, List.append_assoc]
      · exact isBlankLine_of_tight (solid first List.mem_cons_self).2 _
      · simp
    rw [groupShape, if_neg (by simp [blank]), pieces]
    simp

private theorem dictShape?_entries {entries : List (Value × Value)}
    (keys : ∀ entry ∈ entries, Whole valueMarks entry.1.print ∧ Tight entry.1.print)
    (values : ∀ entry ∈ entries, Whole valueMarks entry.2.print ∧ Tight entry.2.print) :
    dictShape? (joined separator (entries.map entryText)) =
      some (.dict (entries.map fun entry => (entry.1.print, ' ' :: entry.2.print))) := by
  have pieces : splitTopLevel ',' (joined separator (entries.map entryText)) =
      entries.map entryText :=
    splitTopLevel_joined
      (List.forall_mem_map.mpr fun entry member =>
        whole_entry (keys entry member).1 (values entry member).1)
      (List.forall_mem_map.mpr fun entry member =>
        (keys entry member).2.append (values entry member).2 [':', ' '])
  have cuts : (entries.map entryText).mapM (cutTopLevel? ':') =
      some (entries.map fun entry => (entry.1.print, ' ' :: entry.2.print)) := by
    clear pieces values
    induction entries with
    | nil => rfl
    | cons entry rest ih =>
      have cut : cutTopLevel? ':' (entry.1.print ++ ':' :: ' ' :: entry.2.print) =
          some (entry.1.print, ' ' :: entry.2.print) :=
        (keys entry List.mem_cons_self).1.cut (by decide) (by decide) _
      have below := ih fun entry member => keys entry (List.mem_cons_of_mem _ member)
      rw [List.map_cons, List.mapM_cons, entryText, cut, below]
      rfl
  rw [dictShape?, pieces, cuts]
  rfl

/-- A named argument is cut at its equals sign, behind which no second one stands. -/
theorem cutNamed?_argText {arg : String × Value} (key : isIdentifier arg.1.toList = true)
    (whole : Whole valueMarks arg.2.print) :
    cutNamed? (argText arg) = some (arg.1, arg.2.print) := by
  have named := named_of_isIdentifier key
  have front : Whole ['='] arg.1.toList := named.whole (by decide)
  have single : arg.2.print.head? ≠ some '=' := whole.head_ne (by decide) (by decide)
  rw [cutNamed?, argText, front.cut List.mem_cons_self (by decide)]
  simp [named.tight.trim, key, single]

private theorem filterMap_argText {named : List (String × Value)}
    (keys : ∀ arg ∈ named, isIdentifier arg.1.toList = true)
    (whole : ∀ arg ∈ named, Whole valueMarks arg.2.print) :
    (named.map argText).filterMap cutNamed? = named.map fun arg => (arg.1, arg.2.print) := by
  induction named with
  | nil => rfl
  | cons arg rest ih =>
    have here := cutNamed?_argText (keys arg List.mem_cons_self) (whole arg List.mem_cons_self)
    have below := ih (fun arg member => keys arg (List.mem_cons_of_mem _ member))
      fun arg member => whole arg (List.mem_cons_of_mem _ member)
    rw [List.map_cons, List.filterMap_cons_some here, below, List.map_cons]

/-- An argument without a name is cut off whole and has no name to be cut off. -/
theorem whole_positional {arg : Value} (whole : Whole valueMarks arg.print)
    (tight : Tight arg.print) :
    (Whole [',', '*'] arg.print ∧ Tight arg.print) ∧ cutNamed? arg.print = none := by
  have uncut : cutTopLevel? '=' arg.print = none := whole.uncut (by decide)
  exact ⟨⟨whole.mono (by decide), tight⟩, by rw [cutNamed?, uncut]⟩

/-- An argument with a name is cut off whole as well. -/
theorem whole_named {arg : String × Value} (key : isIdentifier arg.1.toList = true)
    (whole : Whole valueMarks arg.2.print) (tight : Tight arg.2.print) :
    Whole [',', '*'] (argText arg) ∧ Tight (argText arg) := by
  have named := named_of_isIdentifier key
  exact ⟨whole_arg named whole, named.tight.append tight ['=']⟩

/-- Joined arguments are split again, and none of them is a starred one. -/
theorem starless_joined {texts : List (List Char)}
    (each : ∀ text ∈ texts, Whole [',', '*'] text ∧ Tight text) :
    (splitTopLevel ',' (joined separator texts)).filter (fun piece => piece.head? != some '*') =
      texts := by
  rw [splitTopLevel_joined (fun text member => (each text member).1.mono (by decide))
    fun text member => (each text member).2]
  refine List.filter_eq_self.mpr fun text member => ?_
  have starless : text.head? ≠ some '*' := (each text member).1.head_ne (by decide) (by decide)
  simpa using starless

/-- The parts of a written call. A positional argument holds no equals sign
that could name it. -/
theorem callShape_parts_eq (callee : String) {args : List Value} {named : List (String × Value)}
    (solid : ∀ arg ∈ args, Whole valueMarks arg.print ∧ Tight arg.print)
    (keys : ∀ arg ∈ named, isIdentifier arg.1.toList = true)
    (values : ∀ arg ∈ named, Whole valueMarks arg.2.print ∧ Tight arg.2.print) :
    callShape callee (joined separator (args.map print ++ named.map argText)) =
      .call callee (args.map print) (named.map fun arg => (arg.1, arg.2.print)) := by
  have positional (arg : Value) (member : arg ∈ args) :=
    whole_positional (solid arg member).1 (solid arg member).2
  have cut (arg : String × Value) (member : arg ∈ named) :
      cutNamed? (argText arg) = some (arg.1, arg.2.print) :=
    cutNamed?_argText (keys arg member) (values arg member).1
  have pieces := starless_joined (List.forall_mem_append.mpr
    ⟨List.forall_mem_map.mpr fun arg member => (positional arg member).1,
      List.forall_mem_map.mpr fun arg member =>
        whole_named (keys arg member) (values arg member).1 (values arg member).2⟩)
  have unnamed : (args.map print ++ named.map argText).filter
      (fun piece => (cutNamed? piece).isNone) = args.map print := by
    rw [List.filter_append, List.filter_eq_self.mpr, List.filter_eq_nil_iff.mpr, List.append_nil]
    · exact List.forall_mem_map.mpr fun arg member => by simp [cut arg member]
    · exact List.forall_mem_map.mpr fun arg member => by simp [(positional arg member).2]
  have cuts : (args.map print ++ named.map argText).filterMap cutNamed? =
      named.map fun arg => (arg.1, arg.2.print) := by
    rw [List.filterMap_append, List.filterMap_eq_nil_iff.mpr, List.nil_append,
      filterMap_argText keys fun arg member => (values arg member).1]
    exact List.forall_mem_map.mpr fun arg member => (positional arg member).2
  rw [callShape, pieces, unnamed, cuts]

private theorem readString?_named {name tail : List Char} (named : Named name)
    (ends : ∀ c ∈ tail.head?, isQuote c = false ∧ isLiteralLetter c = false)
    (tight : Tight (name ++ tail)) : readString? (name ++ tail) = none := by
  have unquoted : ∀ c ∈ name, isQuote c = false := fun c member =>
    unquoted_of_isNameChar (named.chars c member)
  exact readString?_none tight (readLiteral?_none unquoted ends)

/-- A text that begins with a name is a constant only if it is one of three words. -/
theorem readConstant?_named {name tail : List Char} (named : Named name)
    (ends : ∀ c ∈ tail.head?, isQuote c = false ∧ isLiteralLetter c = false)
    (tight : Tight (name ++ tail))
    (free : ∀ word ∈ ["None", "True", "False"], name ++ tail ≠ word.toList) :
    readConstant? (name ++ tail) = none := by
  rw [readConstant?, readString?_named named ends tight]
  simp only
  rw [if_neg (free "None" (by decide)), if_neg (free "True" (by decide)),
    if_neg (free "False" (by decide)), named.readNumber?_none]

/-- The three words are constants. -/
theorem readConstant?_word (word : String) (valid : isDottedName word.toList = true) :
    readConstant? word.toList =
      if word.toList = "None".toList then some .none
      else if word.toList = "True".toList then some (.bool true)
      else if word.toList = "False".toList then some (.bool false)
      else none := by
  have named := named_of_isDottedName valid
  have string : readString? (word.toList ++ []) = none :=
    readString?_named named (by simp) (by simpa using named.tight)
  have number := named.readNumber?_none []
  rw [List.append_nil] at string number
  rw [readConstant?, string, number]

private theorem readConstant?_integer {number : Int} (least : -Int.pow 2 63 ≤ number)
    (most : number < Int.pow 2 63) :
    readConstant? (toString number).toList = some (.int number) := by
  have unquoted : ∀ c ∈ (toString number).toList, isQuote c = false := by
    intro c member
    rcases mem_integer_chars member with digit | rfl
    · exact unquoted_of_isNameChar (isNameChar_of_isDigit digit)
    · decide
  have string : readString? (toString number).toList = none := by
    have literal : readLiteral? ((toString number).toList ++ []) = none :=
      readLiteral?_none unquoted (by simp)
    rw [List.append_nil] at literal
    exact readString?_none (tight_integer number) literal
  have other (letter : Char) {word : String} (inside : letter ∈ word.toList)
      (unnumbered : isDigit letter = false) (unsigned : letter ≠ '-') :
      (toString number).toList ≠ word.toList := by
    intro same
    rcases mem_integer_chars (same ▸ inside) with digit | sign
    · rw [digit] at unnumbered
      cases unnumbered
    · exact unsigned sign
  rw [readConstant?, string]
  simp only
  rw [if_neg (other 'N' (by decide) (by decide) (by decide)),
    if_neg (other 'T' (by decide) (by decide) (by decide)),
    if_neg (other 'F' (by decide) (by decide) (by decide)),
    readNumber?_toString least most]

private theorem bracketShape?_named {name : List Char} (named : Named name) (tail : List Char) :
    bracketShape? (name ++ tail) = none := by
  obtain ⟨c, rest, rfl⟩ := List.exists_cons_of_ne_nil named.nonempty
  have other {d : Char} (bracket : isNameChar d = false) : some c ≠ some d := by
    intro same
    rw [← Option.some.inj same, named.chars c List.mem_cons_self] at bracket
    cases bracket
  rw [bracketShape?, List.cons_append, List.head?_cons]
  split
  · next same _ => exact absurd same (other (by decide))
  · next same _ => exact absurd same (other (by decide))
  · next same _ => exact absurd same (other (by decide))
  · rfl

private theorem shape_name {dotted : String} (valid : isDottedName dotted.toList = true)
    (free : dotted ∉ ["None", "True", "False"]) : shape dotted.toList = .atom (.name dotted) := by
  have named := named_of_isDottedName valid
  have constant : readConstant? (dotted.toList ++ []) = none := by
    refine readConstant?_named named (by simp) (by simpa using named.tight) fun word member same => ?_
    rw [List.append_nil] at same
    exact free (String.toList_injective same ▸ member)
  have bracket := bracketShape?_named named []
  rw [List.append_nil] at constant bracket
  rw [shape_compound named.tight constant, bracket, Option.getD_none, namedShape, if_pos valid,
    String.ofList_toList]

private theorem shape_call {callee : String} (valid : isDottedName callee.toList = true)
    (inner : Whole [] inside) :
    shape (callee.toList ++ ('(' :: inside ++ [')'])) = callShape callee inside := by
  have named := named_of_isDottedName valid
  have tight : Tight (callee.toList ++ ('(' :: inside ++ [')'])) :=
    named.tight.append (round.tight inside) []
  have bracketed : '(' ∈ callee.toList ++ ('(' :: inside ++ [')']) := by simp
  have constant : readConstant? (callee.toList ++ ('(' :: inside ++ [')'])) = none := by
    refine readConstant?_named named (by simp; decide) tight fun word member same => ?_
    rw [same] at bracketed
    have plain : ∀ word ∈ ["None", "True", "False"], '(' ∉ word.toList := by decide
    exact plain word member bracketed
  have nameless : isDottedName (callee.toList ++ ('(' :: inside ++ [')'])) = false := by
    rw [Bool.eq_false_iff]
    intro dotted
    exact (named_of_isDottedName dotted).not_mem (by decide) bracketed
  have front : (callee.toList ++ ('(' :: inside ++ [')'])).takeWhile (· ≠ '(') =
      callee.toList := by
    have stops : ('(' :: inside ++ [')']).takeWhile (· ≠ '(') = [] := by
      rw [List.cons_append, List.takeWhile_cons_of_neg (by decide)]
    rw [List.takeWhile_append_of_pos, stops, List.append_nil]
    intro c member
    have other : c ≠ '(' := by
      rintro rfl
      exact named.not_mem (by decide) member
    simpa using other
  have cut : cutCall? (callee.toList ++ ('(' :: inside ++ [')'])) = some (callee, inside) := by
    rw [cutCall?]
    simp only [front]
    rw [named.tight.trim, if_pos valid, List.drop_left, round.enclosed inner]
    simp
  rw [shape_compound tight constant, bracketShape?_named named, Option.getD_none, namedShape,
    if_neg (Bool.eq_false_iff.mp nameless), cut]

/-- A blank in front makes no difference to what is read. -/
theorem read_blank (text : List Char) : read (' ' :: text) = read text := by
  rw [read_eq, read_eq, shape, shape, trim_blank]

private theorem map_read {items : List Value} (same : ∀ item ∈ items, read item.print = item) :
    (items.map print).map read = items := by
  have parts : items.map (read ∘ print) = items.map id := List.map_congr_left same
  rw [List.map_map, parts, List.map_id]

/-- A written value is read as itself, whatever it is built from and to any
depth. -/
theorem read_print (literal : value.Literal) : read value.print = value := by
  induction literal with
  | @str text oneLine =>
    have constant : readConstant? (Value.str text).print = some (.str text) := by
      rw [print, readConstant?, readString?_quoted oneLine]
      simp only [String.ofList_toList]
    rw [read_eq, shape_constant (print_solid (.str oneLine)).2 constant, Shape.value]
  | @int number least most =>
    have constant : readConstant? (Value.int number).print = some (.int number) :=
      readConstant?_integer least most
    rw [read_eq, shape_constant (print_solid (.int least most)).2 constant, Shape.value]
  | bool flag =>
    have solid := print_solid (.bool flag)
    have constant : readConstant? (Value.bool flag).print = some (.bool flag) := by
      cases flag
      · exact readConstant?_word "False" (by decide)
      · exact readConstant?_word "True" (by decide)
    rw [read_eq, shape_constant solid.2 constant, Shape.value]
  | none =>
    have solid := print_solid .none
    have constant : readConstant? Value.none.print = some .none :=
      readConstant?_word "None" (by decide)
    rw [read_eq, shape_constant solid.2 constant, Shape.value]
  | name valid free => rw [read_eq, print, shape_name valid free, Shape.value]
  | @list items each ih =>
    have solid := fun item member => print_solid (each item member)
    have pieces : splitTopLevel ',' (joined separator (items.map print)) = items.map print :=
      splitTopLevel_joined
        (List.forall_mem_map.mpr fun item member => (solid item member).1.mono (by decide))
        (List.forall_mem_map.mpr fun item member => (solid item member).2)
    rw [read_eq, print, printItems_eq,
      shape_square (whole_items fun item member => (solid item member).1), pieces, Shape.value,
      map_read ih]
  | tuple each ih =>
    have solid := fun item member => print_solid (each item member)
    rw [read_eq, print_tuple,
      shape_round (whole_tupleInside fun item member => (solid item member).1),
      groupShape_tuple solid, Shape.value, map_read ih]
  | @dict entries keys values keysIh valuesIh =>
    have keysSolid := fun entry member => print_solid (keys entry member)
    have valuesSolid := fun entry member => print_solid (values entry member)
    have inner := whole_entries (fun entry member => (keysSolid entry member).1)
      fun entry member => (valuesSolid entry member).1
    have parts : (entries.map fun entry => (entry.1.print, ' ' :: entry.2.print)).map
        (fun entry => (read entry.1, read entry.2)) = entries := by
      rw [List.map_map]
      refine (List.map_congr_left fun entry member => ?_).trans (List.map_id entries)
      simp only [Function.comp_apply, read_blank, keysIh entry member, valuesIh entry member,
        id_eq]
    rw [read_eq, print, printEntries_eq,
      shape_curly inner (dictShape?_entries keysSolid valuesSolid), Shape.value, parts]
  | @call callee args named valid each keys values eachIh valuesIh =>
    have solid := fun arg member => print_solid (each arg member)
    have valuesSolid := fun arg member => print_solid (values arg member)
    have inner := whole_args (fun arg member => (solid arg member).1) keys
      fun arg member => (valuesSolid arg member).1
    have parts : (named.map fun arg => (arg.1, arg.2.print)).map
        (fun arg => (arg.1, read arg.2)) = named := by
      rw [List.map_map]
      refine (List.map_congr_left fun arg member => ?_).trans (List.map_id named)
      simp only [Function.comp_apply, valuesIh arg member, id_eq]
    rw [read_eq, print_call, shape_call valid inner, callShape_parts_eq callee solid keys valuesSolid,
      Shape.value, map_read eachIh, parts]

end Expr

/-- The text that a literal is displayed as is read back to the same value. -/
theorem Value.read_display (literal : value.Literal) : readText value.display = value := by
  rw [readText, Value.display, String.toList_ofList]
  exact read_print literal

/-- A call with parts of every kind: quotes and backslashes next to quotes,
marks inside of strings, a tuple of one item, empty texts and containers, and
the least integer. -/
def statusField : Value :=
  .call "models.CharField" [.str "it's (a, 'b'): [=\\", .tuple [.none], .tuple []]
    [("default", .int (-9223372036854775808)),
      ("choices", .list [.tuple [.str "", .call "_" [.str "\\'"] []], .list [], .dict []]),
      ("extra", .dict [(.tuple [.str ",", .bool true], .name "a.b_1"), (.int 0, .bool false)])]

private theorem statusField_literal : statusField.Literal := by
  have quote : (Value.str "it's (a, 'b'): [=\\").Literal := .str (by decide)
  have empty : (Value.str "").Literal := .str (by decide)
  have comma : (Value.str ",").Literal := .str (by decide)
  have escaped : (Value.str "\\'").Literal := .str (by decide)
  have name : (Value.name "a.b_1").Literal := .name (by decide) (by decide)
  have zero : (Value.int 0).Literal := .int (by decide) (by decide)
  have least : (Value.int (-9223372036854775808)).Literal := .int (by decide) (by decide)
  have single : (Value.tuple [.none]).Literal := .tuple (by simp [Value.Literal.none])
  have key : (Value.tuple [.str ",", .bool true]).Literal :=
    .tuple (by simp [comma, Value.Literal.bool])
  have message : (Value.call "_" [.str "\\'"] []).Literal :=
    .call (by decide) (by simp [escaped]) (by simp) (by simp)
  have choice : (Value.tuple [.str "", .call "_" [.str "\\'"] []]).Literal :=
    .tuple (by simp [empty, message])
  have choices : (Value.list
      [.tuple [.str "", .call "_" [.str "\\'"] []], .list [], .dict []]).Literal :=
    .list (by simp [choice, Value.Literal.list, Value.Literal.dict])
  have extra : (Value.dict [(.tuple [.str ",", .bool true], .name "a.b_1"),
      (.int 0, .bool false)]).Literal :=
    .dict (by simp [key, zero]) (by simp [name, Value.Literal.bool])
  exact .call (by decide) (by simp [quote, single, Value.Literal.tuple]) (by decide)
    (by simp [least, choices, extra])

theorem Value.statusField_read_back :
    statusField.Literal ∧
      statusField.display = "models.CharField('it\\'s (a, \\'b\\'): [=\\\\', (None,), (), " ++
        "default=-9223372036854775808, choices=[('', _('\\\\\\'')), [], \x7b\x7d], " ++
        "extra=\x7b(',', True): a.b_1, 0: False\x7d)" ∧
      readText statusField.display = statusField :=
  ⟨statusField_literal, by decide +kernel, Value.read_display statusField_literal⟩

end ApiScribe
