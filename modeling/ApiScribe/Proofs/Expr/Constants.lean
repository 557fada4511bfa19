import ApiScribe.Expr.Shape
import ApiScribe.Proofs.Expr.Scanning

/-! Constants as they are written: quoted strings, integers and names. Each is
whole and tight, so that it can be a part of a longer text, and each is read as
what it was written for. -/
namespace ApiScribe.Expr
open Text
open Value (escape quoted)

variable {text rest name tail : List Char} {c : Char} {marks : List Char} {value : Value}

/-! Strings. -/

private theorem escape_special (special : c = '\\' ∨ c = '\'') (rest : List Char) :
    escape (c :: rest) = '\\' :: c :: escape rest := by
  rw [escape, List.flatMap_cons, if_pos special]
  rfl

private theorem escape_plain (plain : ¬(c = '\\' ∨ c = '\'')) (rest : List Char) :
    escape (c :: rest) = c :: escape rest := by
  rw [escape, List.flatMap_cons, if_neg plain]
  rfl

/-- Without a backslash a character stands for itself. -/
theorem unescape_plain (plain : c ≠ '\\') (rest : List Char) :
    unescape (c :: rest) = c :: unescape rest := by
  rw [unescape.eq_def]
  split <;> simp_all

private theorem unescape_escape (text : List Char) : unescape (escape text) = text := by
  induction text with
  | nil => rfl
  | cons c rest ih =>
    by_cases special : c = '\\' ∨ c = '\''
    · rw [escape_special special]
      rcases special with rfl | rfl <;> rw [unescape, ih]
    · have plain : c ≠ '\\' := fun same => special (.inl same)
      rw [escape_plain special, unescape_plain plain, ih]

/-- A text that two single quotes can stand around: quotes and backslashes stand in
it only behind a backslash, and it does not end the line. -/
inductive Inside : List Char → Prop where
  | nil : Inside []
  | escaped (d : Char) {more : List Char} : Inside more → Inside ('\\' :: d :: more)
  | plain {d : Char} {more : List Char} :
    d ≠ '\\' → d ≠ '\'' → d ≠ '\n' → Inside more → Inside (d :: more)

/-- A text between single quotes. -/
def between (inside : List Char) : List Char := '\'' :: inside ++ ['\'']

theorem between_append (inside rest : List Char) :
    between inside ++ rest = '\'' :: (inside ++ '\'' :: rest) := by
  simp [between]

private theorem getLast?_between (inside : List Char) : (between inside).getLast? = some '\'' := by
  rw [between, List.getLast?_append]
  rfl

/-- A literal begins and ends with its quotes. -/
theorem tight_between (inside : List Char) : Tight (between inside) where
  first := ⟨'\'', rfl, by decide⟩
  last := ⟨'\'', getLast?_between inside, by decide⟩

namespace Inside
variable {inside : List Char}

/-- A literal ends at the first quote that no backslash protects, and there is none
inside. -/
theorem shortLiteral (inner : Inside inside) (rest : List Char) :
    shortLiteral '\'' (inside ++ '\'' :: rest) = (inside ++ ['\''], rest) := by
  induction inner with
  | nil =>
    rw [List.nil_append, Expr.shortLiteral.eq_def]
    rfl
  | escaped c _ ih =>
    rw [List.cons_append, List.cons_append, Expr.shortLiteral, ih]
    rfl
  | plain solid unquoted oneLine _ ih =>
    rw [List.cons_append, shortLiteral_plain solid, if_neg unquoted, if_neg oneLine, ih]
    rfl

/-- No quote follows the one that opens the literal, unless that one closes it. -/
theorem head?_ne (inner : Inside inside) : inside.head? ≠ some '\'' := by
  cases inner with
  | nil => simp
  | escaped c _ => simp
  | plain _ unquoted _ _ => simpa using unquoted

/-- A literal that no further quote follows is read as one with single quotes, even an empty
one, and never as one with three. -/
theorem literalTail (inner : Inside inside) (free : rest.head? ≠ some '\'') :
    literalTail '\'' (inside ++ '\'' :: rest) = (inside ++ ['\''], rest) := by
  have single : (inside ++ '\'' :: rest).take 2 ≠ ['\'', '\''] := by
    have first := inner.head?_ne
    cases inside with
    | nil =>
      cases rest with
      | nil => simp
      | cons c others => simpa using free
    | cons c others =>
      have other : c ≠ '\'' := by simpa using first
      simp [other]
  rw [Expr.literalTail, if_neg single, inner.shortLiteral]

private theorem atoms (inner : Inside inside) (free : rest.head? ≠ some '\'') :
    atoms (between inside ++ rest) = .literal (between inside) :: atoms rest := by
  rw [between_append, Expr.atoms, if_pos (by decide), inner.literalTail free]
  rfl

private theorem whole (inner : Inside inside) (marks : List Char) :
    Whole marks (between inside) := by
  have row : Expr.atoms (between inside) = [.literal (between inside)] := by
    have alone : Expr.atoms (between inside ++ []) = .literal (between inside) :: Expr.atoms [] :=
      inner.atoms (by simp)
    rwa [List.append_nil, Expr.atoms] at alone
  refine ⟨fun rest free => ?_, fun target depth _ more => ?_, fun depth more => ?_⟩
  · rw [row, inner.atoms free]
    rfl
  · rw [row]
    exact findFrom?_literal target depth (between inside) more
  · rw [row]
    exact closeFrom?_literal (depth + 1) (between inside) more

/-- The quotes of a literal are no part of it. A literal of two quotes is too
short for three on either side. -/
theorem literalBody? (inner : Inside inside) :
    literalBody? '\'' (between inside) = some inside := by
  have length : (between inside).length = inside.length + 2 := by simp [between]
  have single : ¬((6 ≤ (between inside).length &&
      ['\'', '\'', '\''].isPrefixOf (between inside) &&
        ['\'', '\'', '\''].isSuffixOf (between inside)) = true) := by
    have first := inner.head?_ne
    cases inside with
    | nil => decide
    | cons c others =>
      have other : '\'' ≠ c := fun same => first (congrArg some same.symm)
      simp [between, other]
  have closed : (2 ≤ (between inside).length && (between inside).getLast? == some '\'') = true := by
    simp [getLast?_between, length]
  rw [Expr.literalBody?, if_neg single, if_pos closed, length, Nat.add_sub_cancel]
  simp [between]

private theorem readLiteral? (inner : Inside inside) :
    readLiteral? (between inside) = some (unescape inside, []) := by
  have tail : Expr.literalTail '\'' (inside ++ ['\'']) = (inside ++ ['\''], []) :=
    inner.literalTail (by simp)
  have body := inner.literalBody?
  have shown : between inside = '\'' :: (inside ++ ['\'']) := rfl
  have letters : ((between inside).take 2).takeWhile isLiteralLetter = [] := by
    rw [shown, List.take_succ_cons, List.takeWhile_cons_of_neg (by decide)]
  rw [Expr.readLiteral?]
  simp only [letters, List.length_nil, List.drop_zero]
  rw [shown] at body ⊢
  simp only
  rw [if_pos (by decide), tail]
  simp only [body, Option.map_some, List.any_nil, Bool.false_eq_true, if_false]

/-- Between its quotes a literal is read as what its escapes stand for. -/
theorem readString? (inner : Inside inside) :
    readString? (between inside) = some (unescape inside) := by
  have shown : between inside = '\'' :: (inside ++ ['\'']) := rfl
  rw [Expr.readString?, (tight_between inside).trim, shown]
  simp only
  rw [← shown, readLiterals?, if_neg (by simp [shown])]
  split
  · next absent =>
    rw [inner.readLiteral?] at absent
    cases absent
  · next value after found =>
    rw [inner.readLiteral?] at found
    cases found
    have done : readLiterals? (trimStart []) = some [] := by
      rw [readLiterals?]
      rfl
    rw [done]
    simp

end Inside

/-- Escaping leaves no quote unprotected. -/
theorem inside_escape (oneLine : '\n' ∉ text) : Inside (escape text) := by
  induction text with
  | nil => exact .nil
  | cons c others ih =>
    rw [List.mem_cons, not_or] at oneLine
    by_cases special : c = '\\' ∨ c = '\''
    · rw [escape_special special]
      exact .escaped c (ih oneLine.2)
    · rw [escape_plain special]
      rw [not_or] at special
      exact .plain special.1 special.2 (Ne.symm oneLine.1) (ih oneLine.2)

theorem whole_quoted (oneLine : '\n' ∉ text) (marks : List Char) : Whole marks (quoted text) :=
  (inside_escape oneLine).whole marks

theorem tight_quoted (text : List Char) : Tight (quoted text) := tight_between (escape text)

/-- A text on one line is read back from its literal, whatever it holds. -/
theorem readString?_quoted (oneLine : '\n' ∉ text) : readString? (quoted text) = some text := by
  have found := (inside_escape oneLine).readString?
  rwa [unescape_escape] at found

/-- A text is no string if no quote opens it, after letters or at once. -/
theorem readString?_none (tight : Tight text) (absent : readLiteral? text = none) :
    readString? text = none := by
  obtain ⟨c, rest, rfl⟩ := List.exists_cons_of_ne_nil tight.ne_nil
  rw [readString?, tight.trim]
  simp only
  rw [readLiterals?, if_neg (by simp)]
  split
  · rfl
  · next value after found =>
    rw [absent] at found
    cases found

/-- Letters before a bracket or the end of the text open no literal. -/
theorem readLiteral?_none (free : ∀ c ∈ name, isQuote c = false)
    (ends : ∀ c ∈ tail.head?, isQuote c = false ∧ isLiteralLetter c = false) :
    readLiteral? (name ++ tail) = none := by
  have closed : tail.takeWhile isLiteralLetter = [] := by
    cases tail with
    | nil => rfl
    | cons c rest => rw [List.takeWhile_cons_of_neg (by simp [(ends c rfl).2])]
  have letters : ((name ++ tail).take 2).takeWhile isLiteralLetter =
      (name.takeWhile isLiteralLetter).take 2 := by
    rw [← List.take_takeWhile, List.takeWhile_append, closed, List.append_nil]
    split
    · next all => rw [(List.takeWhile_prefix _).eq_of_length all]
    · rfl
  obtain ⟨back, whole⟩ :=
    (List.take_prefix 2 _).trans (List.takeWhile_prefix (l := name) isLiteralLetter)
  rw [readLiteral?]
  simp only [letters]
  generalize (name.takeWhile isLiteralLetter).take 2 = front at whole
  rw [← whole, List.append_assoc, List.drop_left]
  split
  · rfl
  · next quote others opened =>
    have unquoted : isQuote quote = false := by
      cases back with
      | nil => exact (ends quote (by rw [← List.nil_append tail, opened]; rfl)).1
      | cons c more =>
        cases opened
        exact free quote (by rw [← whole]; simp)
    rw [if_neg (by simp [unquoted])]

/-! Names. -/

/-- A character of a dotted name. -/
def isNameChar (c : Char) : Bool := isAlphanumeric c || c == '_' || c == '.'

/-- The code points of blanks, one by one. -/
def blankCodes : List Nat := blanks.flatMap fun range => List.range' range.1 (range.2 + 1 - range.1)

private theorem mem_blankCodes (blank : isBlank c = true) : c.toNat ∈ blankCodes := by
  rw [isBlank, within, List.any_eq_true] at blank
  obtain ⟨range, member, bounds⟩ := blank
  simp only [Bool.and_eq_true, decide_eq_true_eq] at bounds
  refine List.mem_flatMap.mpr ⟨range, member, List.mem_range'_1.mpr ⟨bounds.1, ?_⟩⟩
  omega

/-- No blank is part of a name, in any script. -/
theorem isBlank_of_isNameChar (named : isNameChar c = true) : isBlank c = false := by
  have none : ∀ code ∈ blankCodes, isNameChar (Char.ofNat code) = false := by decide +kernel
  rw [Bool.eq_false_iff]
  intro blank
  have other := none c.toNat (mem_blankCodes blank)
  rw [Char.ofNat_toNat, named] at other
  cases other

private theorem isNameChar_of_isLetter (letter : isLetter c = true) : isNameChar c = true := by
  rw [isNameChar, isAlphanumeric_of_isLetter letter]
  rfl

/-- A digit may stand in a name, if not at its beginning. -/
theorem isNameChar_of_isDigit (digit : isDigit c = true) : isNameChar c = true := by
  rw [isNameChar, isAlphanumeric_of_isDigit digit]
  rfl

/-- A character of a name means nothing to scans. -/
theorem quiet_of_isNameChar (named : isNameChar c = true)
    (unmarked : marks.any isNameChar = false) :
    isQuote c = false ∧ isOpening c = false ∧ isClosing c = false ∧ c ∉ marks := by
  have differs {d : Char} (other : isNameChar d = false) : (c == d) = false := by
    rw [beq_eq_false_iff_ne]
    rintro rfl
    rw [named] at other
    cases other
  refine ⟨?_, ?_, ?_, fun mark => List.any_eq_false.mp unmarked c mark named⟩
  · rw [isQuote, differs (by decide), differs (by decide)]
    rfl
  · rw [isOpening, differs (by decide), differs (by decide), differs (by decide)]
    rfl
  · rw [isClosing, differs (by decide), differs (by decide), differs (by decide)]
    rfl

theorem unquoted_of_isNameChar (named : isNameChar c = true) : isQuote c = false := by
  have unmarked : ([] : List Char).any isNameChar = false := rfl
  exact (quiet_of_isNameChar named unmarked).1

/-- The characters of a dotted name, and that it neither begins with a digit nor
ends with a point. -/
structure Named (name : List Char) : Prop where
  nonempty : name ≠ []
  chars : ∀ c ∈ name, isNameChar c = true
  head : ∀ c ∈ name.head?, isLetter c = true ∨ c = '_'

/-- A name with dots in it is made of name characters only. -/
theorem named_of_isDottedName (dotted : isDottedName name = true) : Named name := by
  cases name with
  | nil => cases dotted
  | cons c rest =>
    simp only [isDottedName, Bool.and_eq_true, Bool.or_eq_true, beq_iff_eq,
      List.all_eq_true] at dotted
    obtain ⟨⟨⟨head, _⟩, _⟩, others⟩ := dotted
    refine ⟨List.cons_ne_nil c rest, fun d member => ?_, fun d first => ?_⟩
    · rcases List.mem_cons.mp member with rfl | member
      · rcases head with letter | rfl
        · exact isNameChar_of_isLetter letter
        · rfl
      · have kind := others d member
        simpa only [isNameChar, Bool.or_eq_true, beq_iff_eq] using kind
    · cases first
      exact head

/-- No letter begins a number. -/
theorem isDigit_of_isLetter (letter : isLetter c = true) :
    (isDigit c || c == '-' || c == '.') = false := by
  have ascii : ∀ code < 128, isLetter (Char.ofNat code) = true →
      (isDigit (Char.ofNat code) || Char.ofNat code == '-' || Char.ofNat code == '.') = false := by
    decide +kernel
  by_cases small : c.toNat < 128
  · have known := ascii c.toNat small
    rw [Char.ofNat_toNat] at known
    exact known letter
  · have other {d : Char} (low : d.toNat < 128) : c ≠ d := by
      rintro rfl
      exact small low
    have beyond : isDigit c = false := by
      rw [Bool.eq_false_iff]
      intro digit
      simp only [isDigit, Bool.and_eq_true, decide_eq_true_eq] at digit
      have bound : c.toNat ≤ '9'.toNat := digit.2
      have nine : '9'.toNat = 57 := rfl
      omega
    simp [beyond, other (d := '-') (by decide), other (d := '.') (by decide)]

namespace Named

theorem not_mem (named : Named name) (other : isNameChar c = false) : c ∉ name := by
  intro member
  rw [named.chars c member] at other
  cases other

/-- A scan passes a name in one piece, as no mark is part of a name. -/
theorem whole (named : Named name) (unmarked : marks.any isNameChar = false) :
    Whole marks name :=
  .of_quiet fun c member => quiet_of_isNameChar (named.chars c member) unmarked

theorem tight (named : Named name) : Tight name where
  first := by
    obtain ⟨c, rest, rfl⟩ := List.exists_cons_of_ne_nil named.nonempty
    exact ⟨c, rfl, isBlank_of_isNameChar (named.chars c List.mem_cons_self)⟩
  last := by
    refine ⟨name.getLast named.nonempty, List.getLast?_eq_some_getLast named.nonempty, ?_⟩
    exact isBlank_of_isNameChar (named.chars _ (List.getLast_mem named.nonempty))

/-- A name begins with no digit, sign or point, so it is no number. -/
theorem readNumber?_none (named : Named name) (tail : List Char) :
    readNumber? (name ++ tail) = none := by
  obtain ⟨c, rest, rfl⟩ := List.exists_cons_of_ne_nil named.nonempty
  have other : (isDigit c || c == '-' || c == '.') = false := by
    rcases named.head c rfl with letter | rfl
    · exact isDigit_of_isLetter letter
    · rfl
  rw [List.cons_append, readNumber?]
  simp only [other, Bool.false_eq_true, if_false]

end Named

/-! The values of constants. -/

/-- A value that holds no other value and no name. -/
inductive IsConstant : Value → Prop where
  | str (text : String) : IsConstant (.str text)
  | int (number : Int) : IsConstant (.int number)
  | float (number : Double) : IsConstant (.float number)
  | bool (flag : Bool) : IsConstant (.bool flag)
  | none : IsConstant .none

private theorem isConstant_of_readNumber? (number : readNumber? text = some value) :
    IsConstant value := by
  cases text with
  | nil => cases number
  | cons first rest =>
    rw [readNumber?] at number
    split at number
    · simp only at number
      split at number
      · cases number
        exact .int _
      · obtain ⟨double, _, rfl⟩ := Option.map_eq_some_iff.mp number
        exact .float double
    · cases number

/-- Whatever is read as a constant is one. -/
theorem isConstant_of_readConstant? (constant : readConstant? text = some value) :
    IsConstant value := by
  rw [readConstant?] at constant
  split at constant
  · cases constant
    exact .str _
  split at constant
  · cases constant
    exact .none
  split at constant
  · cases constant
    exact .bool true
  split at constant
  · cases constant
    exact .bool false
  exact isConstant_of_readNumber? constant

end ApiScribe.Expr
