import ApiScribe.Expr.Printer
import ApiScribe.Expr.Scan

/-! Texts that a scan passes over in one piece. Their literals end where they
seem to end whatever follows, their brackets are closed, and certain marks
stand in them only inside of brackets and literals. Such texts can be put
together with marks in between, and a search for the marks finds just these. -/
namespace ApiScribe.Expr
open Text

variable {text rest inside other left right : List Char} {c opening closing target : Char}
  {marks : List Char}

/-- A cut of a row with more of the row before it. -/
def behind (row : List Atom) (cut : List Atom × List Atom) : List Atom × List Atom :=
  (row ++ cut.1, cut.2)

private theorem map_behind_nil (cut : Option (List Atom × List Atom)) :
    cut.map (behind []) = cut := by
  cases cut <;> rfl

private theorem map_behind_append (first second : List Atom)
    (cut : Option (List Atom × List Atom)) :
    (cut.map (behind second)).map (behind first) = cut.map (behind (first ++ second)) := by
  cases cut <;> simp [behind]

/-- A literal is passed over, whatever characters it holds. -/
theorem findFrom?_literal (target : Char) (depth : Nat) (text : List Char) (more : List Atom) :
    findFrom? target depth (.literal text :: more) =
      (findFrom? target depth more).map (behind [.literal text]) := rfl

/-- Any other plain character is passed over, and a bracket changes the depth. -/
theorem findFrom?_missed (missed : ¬(c = target ∧ depth = 0)) (more : List Atom) :
    findFrom? target depth (.plain c :: more) = (findFrom? target
      (if isOpening c then depth + 1 else if isClosing c then depth - 1 else depth) more).map
        (behind [.plain c]) := by
  rw [findFrom?, if_neg missed]
  rfl

private theorem findFrom?_opening (opens : isOpening opening = true)
    (deep : depth = 0 → opening ≠ target) (more : List Atom) :
    findFrom? target depth (.plain opening :: more) =
      (findFrom? target (depth + 1) more).map (behind [.plain opening]) := by
  have missed : ¬(opening = target ∧ depth = 0) := fun hit => deep hit.2 hit.1
  rw [findFrom?, if_neg missed, if_pos opens]
  rfl

private theorem findFrom?_closing (opens : isOpening closing = false)
    (closes : isClosing closing = true) (more : List Atom) :
    findFrom? target (depth + 1) (.plain closing :: more) =
      (findFrom? target depth more).map (behind [.plain closing]) := by
  rw [findFrom?, if_neg fun hit => Nat.succ_ne_zero _ hit.2, if_neg (by simp [opens]),
    if_pos closes]
  rfl

/-- A character that is no bracket is passed over if it is not the target or lies in brackets. -/
theorem findFrom?_other (opens : isOpening c = false) (closes : isClosing c = false)
    (deep : depth = 0 → c ≠ target) (more : List Atom) :
    findFrom? target depth (.plain c :: more) =
      (findFrom? target depth more).map (behind [.plain c]) := by
  have missed : ¬(c = target ∧ depth = 0) := fun hit => deep hit.2 hit.1
  rw [findFrom?, if_neg missed, if_neg (by simp [opens]), if_neg (by simp [closes])]
  rfl

theorem closeFrom?_literal (depth : Nat) (text : List Char) (more : List Atom) :
    closeFrom? depth (.literal text :: more) =
      (closeFrom? depth more).map (behind [.literal text]) := by
  rw [closeFrom?.eq_def]
  rfl

/-- An opening bracket has to be closed first. -/
theorem closeFrom?_opening (opens : isOpening opening = true) (depth : Nat) (more : List Atom) :
    closeFrom? depth (.plain opening :: more) =
      (closeFrom? (depth + 1) more).map (behind [.plain opening]) := by
  rw [closeFrom?.eq_def]
  simp only
  rw [if_pos opens]
  rfl

/-- A closing bracket inside of others closes the innermost, of whichever kind it is. -/
theorem closeFrom?_closing (opens : isOpening closing = false) (closes : isClosing closing = true)
    (depth : Nat) (more : List Atom) :
    closeFrom? (depth + 2) (.plain closing :: more) =
      (closeFrom? (depth + 1) more).map (behind [.plain closing]) := by
  rw [closeFrom?, if_neg (by simp [opens]), if_pos closes]
  rfl

/-- The bracket that brings the depth back to nothing is the one sought. -/
theorem closeFrom?_last (opens : isOpening closing = false) (closes : isClosing closing = true)
    (more : List Atom) : closeFrom? 1 (.plain closing :: more) = some ([], more) := by
  rw [closeFrom?, if_neg (by simp [opens]), if_pos closes]

theorem closeFrom?_other (opens : isOpening c = false) (closes : isClosing c = false)
    (depth : Nat) (more : List Atom) :
    closeFrom? depth (.plain c :: more) = (closeFrom? depth more).map (behind [.plain c]) := by
  rw [closeFrom?.eq_def]
  simp only
  rw [if_neg (by simp [opens]), if_neg (by simp [closes])]
  rfl

theorem atoms_plain (unquoted : isQuote c = false) (rest : List Char) :
    atoms (c :: rest) = .plain c :: atoms rest := by
  rw [atoms, if_neg (by simp [unquoted])]

/-- Quotes are neither line ends nor backslashes. -/
theorem quote_ne (quote : isQuote c = true) : c ≠ '\n' ∧ c ≠ '\r' ∧ c ≠ '\\' := by
  rw [isQuote, Bool.or_eq_true, beq_iff_eq, beq_iff_eq] at quote
  rcases quote with rfl | rfl <;> decide

/-- A backslash that protects no character is the last one. -/
theorem eq_nil_of_lone (lone : ∀ d more, c = '\\' → rest = d :: more → False)
    (slash : c = '\\') : rest = [] := by
  rcases rest with _ | ⟨d, more⟩
  · rfl
  · exact absurd rfl (lone d more slash)

theorem solid_of_isQuote (quote : isQuote c = true) : isBlank c = false := by
  rw [isQuote, Bool.or_eq_true, beq_iff_eq, beq_iff_eq] at quote
  rcases quote with rfl | rfl <;> rfl

theorem solid_of_isOpening (opens : isOpening c = true) : isBlank c = false := by
  rw [isOpening, Bool.or_eq_true, Bool.or_eq_true, beq_iff_eq, beq_iff_eq, beq_iff_eq] at opens
  rcases opens with (rfl | rfl) | rfl <;> rfl

theorem solid_of_isClosing (closes : isClosing c = true) : isBlank c = false := by
  rw [isClosing, Bool.or_eq_true, Bool.or_eq_true, beq_iff_eq, beq_iff_eq, beq_iff_eq] at closes
  rcases closes with (rfl | rfl) | rfl <;> rfl

/-- A literal with one quote ends at its quote, or before a line feed. -/
theorem shortLiteral_plain (plain : c ≠ '\\') (quote : Char) (rest : List Char) :
    shortLiteral quote (c :: rest) =
      if c = quote then ([c], rest)
      else if c = '\n' then ([], c :: rest)
      else (c :: (shortLiteral quote rest).1, (shortLiteral quote rest).2) := by
  rw [shortLiteral.eq_def]
  split <;> simp_all

theorem shortLiteral_feed (quote : isQuote c = true) (rest : List Char) :
    shortLiteral c ('\n' :: rest) = ([], '\n' :: rest) := by
  rw [shortLiteral_plain (by decide), if_neg (Ne.symm (quote_ne quote).1), if_pos rfl]

/-- Behind a backslash even a quote belongs to the literal. -/
theorem longLiteral_escaped (quote escapedChar : Char) (rest : List Char) :
    longLiteral quote ('\\' :: escapedChar :: rest) =
      ('\\' :: escapedChar :: (longLiteral quote rest).1, (longLiteral quote rest).2) := rfl

/-- A literal with three quotes ends at three of them in a row and nowhere else. -/
theorem longLiteral_plain (plain : c ≠ '\\') (quote : Char) (rest : List Char) :
    longLiteral quote (c :: rest) =
      if c = quote ∧ rest.take 2 = [quote, quote] then ([c, quote, quote], rest.drop 2)
      else (c :: (longLiteral quote rest).1, (longLiteral quote rest).2) := by
  rw [longLiteral.eq_def]
  split <;> simp_all

/-! Where a literal ends does not depend on what stands behind it, but for the next
character. -/

private theorem shortLiteral_stable (quote : isQuote c = true) (text : List Char)
    (same : other.head? = (shortLiteral c text).2.head?) :
    shortLiteral c ((shortLiteral c text).1 ++ other) = ((shortLiteral c text).1, other) := by
  have solid := (quote_ne quote).2.2
  fun_induction shortLiteral c text with
  | case1 =>
    rw [List.head?_eq_none_iff.mp same]
    rfl
  | case2 d rest inside after cut ih =>
    rw [cut] at ih
    simp only [List.cons_append, shortLiteral, ih same]
  | case3 rest escaped => simp [shortLiteral_plain solid]
  | case4 rest escaped unquoted =>
    obtain ⟨more, rfl⟩ := List.head?_eq_some_iff.mp same
    exact shortLiteral_feed quote more
  | case5 d rest escaped unquoted oneLine inside after cut ih =>
    rw [cut] at ih
    by_cases slash : d = '\\'
    · -- The backslash is the last character of the text.
      obtain rfl := eq_nil_of_lone escaped slash
      cases cut
      rw [List.head?_eq_none_iff.mp same, slash]
      simp [shortLiteral, Ne.symm solid]
    · rw [List.cons_append, shortLiteral_plain slash, if_neg unquoted, if_neg oneLine, ih same]

/-- A literal with three quotes goes up to the end of the text or has three more at its
own end. -/
theorem longLiteral_ends (c : Char) (text : List Char) :
    (longLiteral c text).2 = [] ∨ 3 ≤ (longLiteral c text).1.length := by
  fun_induction longLiteral c text with
  | case1 => exact .inl rfl
  | case2 d rest inside after cut ih =>
    rw [cut] at ih
    exact ih.imp id fun long => by simp only [List.length_cons] at long ⊢; omega
  | case3 rest escaped closes => exact .inr (Nat.le_refl 3)
  | case4 d rest escaped unclosed inside after cut ih =>
    rw [cut] at ih
    exact ih.imp id fun long => by simp only [List.length_cons] at long ⊢; omega

private theorem longLiteral_stable (quote : isQuote c = true) (text : List Char)
    (same : other.head? = (longLiteral c text).2.head?) :
    longLiteral c ((longLiteral c text).1 ++ other) = ((longLiteral c text).1, other) := by
  have solid := (quote_ne quote).2.2
  fun_induction longLiteral c text with
  | case1 =>
    rw [List.head?_eq_none_iff.mp same]
    rfl
  | case2 d rest inside after cut ih =>
    rw [cut] at ih
    simp only [List.cons_append, longLiteral_escaped, ih same]
  | case3 d rest escaped closes =>
    obtain rfl := closes.1
    simp only [List.cons_append, List.nil_append]
    rw [longLiteral_plain solid, if_pos ⟨rfl, rfl⟩]
    rfl
  | case4 d rest escaped unclosed inside after cut ih =>
    have parts := longLiteral_append c rest
    have ends := longLiteral_ends c rest
    rw [cut] at ih parts ends
    by_cases slash : d = '\\'
    · obtain rfl := eq_nil_of_lone escaped slash
      cases cut
      rw [List.head?_eq_none_iff.mp same, slash]
      simp [longLiteral, Ne.symm solid]
    · have front : (inside ++ other).take 2 = rest.take 2 := by
        rcases ends with none | long
        · simp only at none
          rw [none] at same parts
          rw [List.head?_eq_none_iff.mp same, parts]
        · simp only at long parts
          rw [← parts, List.take_append_of_le_length (by omega),
            List.take_append_of_le_length (by omega)]
      rw [List.cons_append, longLiteral_plain slash, front, if_neg unclosed, ih same]

/-- A text begins with no second quote behind a literal that is empty or of one quote. -/
theorem literalTail_stable (quote : isQuote c = true) (text : List Char)
    (same : other.head? = (literalTail c text).2.head?) :
    literalTail c ((literalTail c text).1 ++ other) = ((literalTail c text).1, other) := by
  by_cases triple : text.take 2 = [c, c]
  · have long : literalTail c text = (c :: c :: (longLiteral c (text.drop 2)).1,
        (longLiteral c (text.drop 2)).2) := by
      rw [literalTail, if_pos triple]
    rw [long] at same ⊢
    have stable := longLiteral_stable quote (text.drop 2) same
    simp [literalTail, stable]
  · have short : literalTail c text = shortLiteral c text := by
      rw [literalTail, if_neg triple]
    have parts := shortLiteral_append c text
    rw [short] at same ⊢
    have single : ((shortLiteral c text).1 ++ other).take 2 ≠ [c, c] := by
      intro pair
      have opens := List.take_append_drop 2 ((shortLiteral c text).1 ++ other)
      rw [pair] at opens
      rcases inside : (shortLiteral c text).1 with _ | ⟨d, _ | ⟨e, rest⟩⟩
      · rw [inside, List.nil_append] at parts opens
        rw [parts, ← opens] at same
        obtain ⟨more, rfl⟩ := List.head?_eq_some_iff.mp same.symm
        rw [shortLiteral_plain (quote_ne quote).2.2, if_pos rfl] at inside
        cases inside
      · rw [inside] at parts opens
        obtain ⟨rfl, next⟩ := List.cons.inj opens
        have next : c :: List.drop 2 (c :: other) = other := next
        rw [← next] at same
        obtain ⟨more, behind⟩ := List.head?_eq_some_iff.mp same.symm
        exact triple (by rw [← parts, behind]; rfl)
      · rw [inside] at parts opens
        obtain ⟨rfl, next⟩ := List.cons.inj opens
        obtain ⟨rfl, _⟩ := List.cons.inj next
        exact triple (by rw [← parts]; rfl)
    rw [literalTail, if_neg single]
    exact shortLiteral_stable quote text same

/-- A text that every scan passes over in one piece, where `marks` stand inside
of brackets and literals only. A quote behind it could change how it ends. -/
structure Whole (marks text : List Char) : Prop where
  apart : ∀ rest, rest.head? ≠ some '\'' → atoms (text ++ rest) = atoms text ++ atoms rest
  skipped : ∀ target depth, (depth = 0 → target ∈ marks) → ∀ more,
    findFrom? target depth (atoms text ++ more) =
      (findFrom? target depth more).map (behind (atoms text))
  balanced : ∀ depth more, closeFrom? (depth + 1) (atoms text ++ more) =
    (closeFrom? (depth + 1) more).map (behind (atoms text))

namespace Whole

theorem nil (marks : List Char) : Whole marks [] where
  apart rest _ := by simp [atoms]
  skipped target depth _ more := by simp [atoms, map_behind_nil]
  balanced depth more := by simp [atoms, map_behind_nil]

/-- A text without some marks is without fewer of them. -/
theorem mono {fewer : List Char} (whole : Whole marks text) (subset : fewer ⊆ marks) :
    Whole fewer text where
  apart := whole.apart
  skipped target depth top := whole.skipped target depth fun zero => subset (top zero)
  balanced := whole.balanced

/-- Whole texts stay whole side by side, unless the second one would lengthen a literal with its
quote. -/
theorem append (first : Whole marks text) (second : Whole marks rest)
    (unquoted : rest.head? ≠ some '\'') : Whole marks (text ++ rest) where
  apart more free := by
    have joint : (rest ++ more).head? ≠ some '\'' := by
      cases rest with
      | nil => exact free
      | cons c others => exact unquoted
    rw [List.append_assoc, first.apart _ joint, second.apart _ free, first.apart _ unquoted,
      List.append_assoc]
  skipped target depth top more := by
    rw [first.apart _ unquoted, List.append_assoc, first.skipped target depth top,
      second.skipped target depth top, map_behind_append]
  balanced depth more := by
    rw [first.apart _ unquoted, List.append_assoc, first.balanced, second.balanced,
      map_behind_append]

/-- A character that is no quote, bracket or mark. -/
theorem cons (unquoted : isQuote c = false) (opens : isOpening c = false)
    (closes : isClosing c = false) (unmarked : c ∉ marks) (whole : Whole marks text) :
    Whole marks (c :: text) where
  apart more free := by
    rw [List.cons_append, atoms_plain unquoted, atoms_plain unquoted, whole.apart _ free]
    rfl
  skipped target depth top more := by
    have deep : depth = 0 → c ≠ target := fun zero same => unmarked (same ▸ top zero)
    rw [atoms_plain unquoted, List.cons_append, findFrom?_other opens closes deep,
      whole.skipped target depth top, map_behind_append]
    rfl
  balanced depth more := by
    rw [atoms_plain unquoted, List.cons_append, closeFrom?_other opens closes, whole.balanced,
      map_behind_append]
    rfl

/-- A text of characters without a meaning to scans. -/
theorem of_quiet (quiet : ∀ c ∈ text, isQuote c = false ∧ isOpening c = false ∧
    isClosing c = false ∧ c ∉ marks) : Whole marks text := by
  induction text with
  | nil => exact nil marks
  | cons c rest ih =>
    obtain ⟨unquoted, opens, closes, unmarked⟩ := quiet c List.mem_cons_self
    exact cons unquoted opens closes unmarked
      (ih fun c member => quiet c (List.mem_cons_of_mem _ member))

end Whole

/-- Two characters that can stand around a text as its brackets. -/
structure Brackets (opening closing : Char) : Prop where
  opens : isOpening opening = true
  closes : isClosing closing = true

namespace Brackets

private theorem unquoted (pair : Brackets opening closing) :
    isQuote opening = false ∧ isQuote closing = false := by
  have opens := pair.opens
  have closes := pair.closes
  simp only [isOpening, isClosing, Bool.or_eq_true, beq_iff_eq] at opens closes
  constructor
  · rcases opens with (rfl | rfl) | rfl <;> rfl
  · rcases closes with (rfl | rfl) | rfl <;> rfl

/-- A closing bracket opens nothing. -/
theorem closing_opens (pair : Brackets opening closing) : isOpening closing = false := by
  have closes := pair.closes
  simp only [isClosing, Bool.or_eq_true, beq_iff_eq] at closes
  rcases closes with (rfl | rfl) | rfl <;> rfl

private theorem atoms_around (pair : Brackets opening closing) (whole : Whole marks inside)
    (rest : List Char) :
    atoms (opening :: inside ++ closing :: rest) =
      .plain opening :: atoms inside ++ .plain closing :: atoms rest := by
  have ends : (closing :: rest).head? ≠ some '\'' := by
    rintro same
    have quoted := pair.unquoted.2
    rw [Option.some.inj same] at quoted
    cases quoted
  rw [List.cons_append, atoms_plain pair.unquoted.1, whole.apart _ ends,
    atoms_plain pair.unquoted.2]
  rfl

/-- What stands in brackets is out of reach, marks included. -/
theorem whole (pair : Brackets opening closing) (inner : Whole [] inside)
    (unmarked : opening ∉ marks) : Whole marks (opening :: inside ++ [closing]) := by
  have row : atoms (opening :: inside ++ [closing]) =
      .plain opening :: atoms inside ++ [.plain closing] := by
    rw [pair.atoms_around inner, atoms]
  refine ⟨fun rest _ => ?_, fun target depth top more => ?_, fun depth more => ?_⟩
  · rw [row, List.append_assoc, List.singleton_append, pair.atoms_around inner,
      List.append_assoc, List.singleton_append]
  · have deep : depth = 0 → opening ≠ target := fun zero same => unmarked (same ▸ top zero)
    rw [row, List.append_assoc, List.cons_append, findFrom?_opening pair.opens deep,
      inner.skipped target (depth + 1) (fun zero => absurd zero (Nat.succ_ne_zero _)),
      List.singleton_append, findFrom?_closing pair.closing_opens pair.closes,
      map_behind_append, map_behind_append]
    rfl
  · rw [row, List.append_assoc, List.cons_append, closeFrom?_opening pair.opens,
      inner.balanced, List.singleton_append, closeFrom?_closing pair.closing_opens pair.closes,
      map_behind_append, map_behind_append]
    rfl

/-- The text between the brackets is found again. -/
theorem enclosed (pair : Brackets opening closing) (inner : Whole [] inside) :
    enclosed? (opening :: inside ++ [closing]) = some inside := by
  have closed : closeFrom? 0 (atoms (opening :: inside ++ [closing])) =
      some (.plain opening :: atoms inside, []) := by
    rw [pair.atoms_around inner, List.cons_append, closeFrom?_opening pair.opens,
      inner.balanced, atoms, closeFrom?_last pair.closing_opens pair.closes]
    simp [behind]
  have text : (written (.plain opening :: atoms inside)).drop 1 = inside := by
    have same := written_atoms inside
    simpa [written, Atom.chars] using same
  rw [enclosed?, closed]
  exact congrArg some text

end Brackets

/-- The first mark behind a text that holds none is the place of the cut. -/
theorem Whole.cut (whole : Whole marks text) (mark : target ∈ marks)
    (unquoted : isQuote target = false) (rest : List Char) :
    cutTopLevel? target (text ++ target :: rest) = some (text, rest) := by
  have free : (target :: rest).head? ≠ some '\'' := by
    intro same
    rw [Option.some.inj same] at unquoted
    cases unquoted
  have found : findFrom? target 0 (.plain target :: atoms rest) = some ([], atoms rest) := by
    rw [findFrom?, if_pos ⟨rfl, rfl⟩]
  rw [cutTopLevel?, whole.apart _ free, atoms_plain unquoted,
    whole.skipped target 0 (fun _ => mark), found]
  simp [behind, written_atoms]

/-- A text without a mark is not cut. -/
theorem Whole.uncut (whole : Whole marks text) (mark : target ∈ marks) :
    cutTopLevel? target text = none := by
  have passed := whole.skipped target 0 (fun _ => mark) []
  rw [List.append_nil, findFrom?] at passed
  rw [cutTopLevel?, passed]
  rfl

/-- A text with something in it and no blank at either end. -/
structure Tight (text : List Char) : Prop where
  first : ∃ c, text.head? = some c ∧ isBlank c = false
  last : ∃ c, text.getLast? = some c ∧ isBlank c = false

namespace Tight

theorem ne_nil (tight : Tight text) : text ≠ [] := by
  rintro rfl
  obtain ⟨c, absent, _⟩ := tight.first
  cases absent

private theorem trimStart (tight : Tight text) : Text.trimStart text = text := by
  obtain ⟨c, first, solid⟩ := tight.first
  obtain ⟨rest, rfl⟩ := List.head?_eq_some_iff.mp first
  rw [Text.trimStart, List.dropWhile_cons_of_neg (by simp [solid])]

private theorem trimEnd (tight : Tight text) : Text.trimEnd text = text := by
  obtain ⟨c, last, solid⟩ := tight.last
  obtain ⟨front, rfl⟩ := List.getLast?_eq_some_iff.mp last
  rw [Text.trimEnd, List.reverse_concat, List.dropWhile_cons_of_neg (by simp [solid]),
    List.reverse_cons, List.reverse_reverse]

/-- A text with solid ends is trimmed to itself. -/
theorem trim (tight : Tight text) : Text.trim text = text := by
  rw [Text.trim, tight.trimStart, tight.trimEnd]

/-- A blank at the end makes no difference. -/
theorem trim_behind (tight : Tight text) : Text.trim (text ++ [' ']) = text := by
  obtain ⟨c, first, solid⟩ := tight.first
  obtain ⟨rest, rfl⟩ := List.head?_eq_some_iff.mp first
  have start : Text.trimStart (c :: rest ++ [' ']) = c :: rest ++ [' '] := by
    rw [Text.trimStart, List.cons_append, List.dropWhile_cons_of_neg (by simp [solid])]
  have unended : Text.trimEnd (c :: rest ++ [' ']) = Text.trimEnd (c :: rest) := by
    rw [Text.trimEnd, List.reverse_concat, List.dropWhile_cons_of_pos (by decide)]
    rfl
  rw [Text.trim, start, unended, tight.trimEnd]

end Tight

theorem trim_blank (rest : List Char) : trim (' ' :: rest) = trim rest := by
  rw [trim, trim, trimStart, List.dropWhile_cons_of_pos (by decide)]
  rfl

/-- A text without a place to be cut is one piece, or none when it is blank. -/
theorem splitTopLevel_uncut (none : cutTopLevel? target text = none) :
    splitTopLevel target text = [trim text].filter (!·.isEmpty) := by
  rw [splitTopLevel.eq_def, none]
  simp only
  cases trim text <;> rfl

/-- Splitting cuts once and goes on behind the cut, blank pieces left out. -/
theorem splitTopLevel_cut (found : cutTopLevel? target text = some (left, right)) :
    splitTopLevel target text =
      [trim left].filter (!·.isEmpty) ++ splitTopLevel target right := by
  rw [splitTopLevel.eq_def, found]
  simp only
  cases trim left <;> rfl

/-- A blank at the beginning makes no difference to the pieces. -/
theorem splitTopLevel_blank (rest : List Char) :
    splitTopLevel ',' (' ' :: rest) = splitTopLevel ',' rest := by
  have shifted : cutTopLevel? ',' (' ' :: rest) =
      (cutTopLevel? ',' rest).map fun cut => (' ' :: cut.1, cut.2) := by
    rw [cutTopLevel?, cutTopLevel?, atoms_plain (by decide),
      findFrom?_other (by decide) (by decide) (by decide)]
    cases findFrom? ',' 0 (atoms rest) <;> simp [behind, written, Atom.chars]
  rw [splitTopLevel.eq_def, splitTopLevel.eq_def, shifted]
  cases cutTopLevel? ',' rest with
  | none => simp only [Option.map_none, trim_blank]
  | some cut => simp only [Option.map_some, trim_blank]

theorem splitTopLevel_nil : splitTopLevel ',' [] = [] := by
  rw [splitTopLevel_uncut ((Whole.nil [',']).uncut List.mem_cons_self)]
  rfl

/-- A whole text in front of a separator is the first piece. -/
theorem splitTopLevel_cons (whole : Whole [','] text) (tight : Tight text) (rest : List Char) :
    splitTopLevel ',' (text ++ ',' :: rest) = text :: splitTopLevel ',' rest := by
  obtain ⟨c, others, rfl⟩ := List.exists_cons_of_ne_nil tight.ne_nil
  rw [splitTopLevel_cut (whole.cut List.mem_cons_self (by decide) rest), tight.trim]
  rfl

/-- A text without a blank at either end that is not cut is its own only piece. -/
theorem splitTopLevel_tight (tight : Tight text) (uncut : cutTopLevel? target text = none) :
    splitTopLevel target text = [text] := by
  obtain ⟨c, others, rfl⟩ := List.exists_cons_of_ne_nil tight.ne_nil
  rw [splitTopLevel_uncut uncut, tight.trim]
  rfl

private theorem splitTopLevel_single (whole : Whole [','] text) (tight : Tight text) :
    splitTopLevel ',' text = [text] :=
  splitTopLevel_tight tight (whole.uncut List.mem_cons_self)

/-- Joined texts are the pieces of what they were joined to. -/
theorem splitTopLevel_joined {texts : List (List Char)}
    (whole : ∀ text ∈ texts, Whole [','] text) (tight : ∀ text ∈ texts, Tight text) :
    splitTopLevel ',' (joined Value.separator texts) = texts := by
  induction texts with
  | nil => exact splitTopLevel_nil
  | cons text rest ih =>
    have firstWhole := whole text List.mem_cons_self
    have firstTight := tight text List.mem_cons_self
    cases rest with
    | nil => exact splitTopLevel_single firstWhole firstTight
    | cons next others =>
      have below := ih (fun text member => whole text (List.mem_cons_of_mem _ member))
        fun text member => tight text (List.mem_cons_of_mem _ member)
      rw [joined_cons_cons, Value.separator, List.append_assoc, List.cons_append, List.singleton_append,
        splitTopLevel_cons firstWhole firstTight, splitTopLevel_blank, ← Value.separator, below]

/-- Joined texts are whole up to the separators between them. -/
theorem whole_joined {texts : List (List Char)} (whole : ∀ text ∈ texts, Whole [] text) :
    Whole [] (joined Value.separator texts) := by
  induction texts with
  | nil => exact .nil []
  | cons text rest ih =>
    have first := whole text List.mem_cons_self
    cases rest with
    | nil => exact first
    | cons next others =>
      have below := ih fun text member => whole text (List.mem_cons_of_mem _ member)
      have spaced : Whole [] (',' :: ' ' :: joined Value.separator (next :: others)) :=
        .cons rfl rfl rfl List.not_mem_nil (.cons rfl rfl rfl List.not_mem_nil below)
      rw [joined_cons_cons, Value.separator, List.append_assoc]
      exact first.append spaced (by simp)

end ApiScribe.Expr
