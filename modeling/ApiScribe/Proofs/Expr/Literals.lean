import ApiScribe.Expr.Literal
import ApiScribe.Proofs.Expr.Constants
import ApiScribe.Proofs.Text.Trimming

/-! Which texts are read as strings. A literal is closed by the first delimiter that no
backslash protects. The reader takes a literal for closed if it ends in its quote, and so
it does with a few that are not: where the last quote is protected, or where one quote
ends what three have opened. -/
namespace ApiScribe.Expr
open Text

/-- A text without a delimiter, unless behind a backslash, in front of a tail with which
a delimiter could begin before. A text of one line has no line feed without a backslash. -/
inductive Free (delimiter tail : List Char) (oneLine : Prop) : List Char → Prop where
  | nil : Free delimiter tail oneLine []
  | escaped (c : Char) (rest : Free delimiter tail oneLine text) :
    Free delimiter tail oneLine ('\\' :: c :: text)
  | plain (solid : c ≠ '\\') (undelimited : ¬ delimiter <+: c :: (text ++ tail))
    (unbroken : oneLine → c ≠ '\n') (rest : Free delimiter tail oneLine text) :
    Free delimiter tail oneLine (c :: text)

/-- A literal with its quotes that is closed, in front of the rest of a text. Three quotes
at its beginning open one with three quotes on either side. -/
inductive Complete (rest : List Char) : List Char → Prop where
  | short (quoted : isQuote quote = true)
    (single : ¬ [quote, quote, quote] <+: quote :: (body ++ quote :: rest))
    (inside : Free [quote] (quote :: rest) True body) : Complete rest (quote :: (body ++ [quote]))
  | long (quoted : isQuote quote = true)
    (inside : Free [quote, quote, quote] (quote :: quote :: quote :: rest) False body) :
    Complete rest (quote :: quote :: quote :: (body ++ [quote, quote, quote]))

/-- A literal that goes on to the end of the text or, with one quote, of the line without
being closed, and has its quote as the last character. -/
inductive Unclosed (rest : List Char) : List Char → Prop where
  | short (quoted : isQuote quote = true) (inside : Free [quote] rest True body)
    (ends : rest = [] ∨ rest.head? = some '\n') (last : body.getLast? = some quote) :
    Unclosed rest (quote :: body)
  | long (quoted : isQuote quote = true) (inside : Free [quote, quote, quote] [] False body)
    (ends : rest = []) (last : (quote :: body).getLast? = some quote) :
    Unclosed rest (quote :: quote :: quote :: body)

/-- The letters in front of a literal. -/
structure Leading (front : List Char) : Prop where
  few : front.length ≤ 2
  known : ∀ c ∈ front, isLiteralLetter c = true

/-- A row of literals of a kind, each with its letters, with nothing but blanks between them. -/
inductive Literals (kind : List Char → List Char → Prop) : List Char → Prop where
  | nil : Literals kind []
  | cons (before : Leading front) (literal : kind rest quoted)
    (behind : Literals kind (trimStart rest)) : Literals kind (front ++ (quoted ++ rest))

/-- A text of complete literals, one at least. -/
def IsString (text : List Char) : Prop := trim text ≠ [] ∧ Literals Complete (trim text)

/-- A literal that ends in its quote, be it closed or not. -/
def Sealed (rest quoted : List Char) : Prop := Complete rest quoted ∨ Unclosed rest quoted

/-- A row of literals of which one is not closed. -/
inductive Misread : List Char → Prop where
  | here (before : Leading front) (literal : Unclosed rest quoted)
    (behind : Literals Sealed (trimStart rest)) : Misread (front ++ (quoted ++ rest))
  | behind (before : Leading front) (literal : Complete rest quoted)
    (behind : Misread (trimStart rest)) : Misread (front ++ (quoted ++ rest))

/-- A literal that the reader finds where it stands, with its quote at the end. -/
def Found (rest quoted : List Char) : Prop :=
  ∃ quote inside, quoted = quote :: inside ∧ isQuote quote = true ∧
    literalTail quote (inside ++ rest) = (inside, rest) ∧ inside.getLast? = some quote

variable {delimiter tail text body rest more front quoted : List Char} {oneLine : Prop}
  {c quote : Char}

/-! Where a literal ends. -/

/-- A text is free up to its first delimiter, line feed or end, or to a backslash at its
very end. -/
theorem exists_free (delimiter text : List Char) (oneLine : Prop) :
    ∃ body tail, text = body ++ tail ∧ Free delimiter tail oneLine body ∧
      (delimiter <+: tail ∨ tail = [] ∨ tail = ['\\'] ∨ (oneLine ∧ tail.head? = some '\n')) := by
  match text with
  | [] => exact ⟨[], [], rfl, .nil, .inr (.inl rfl)⟩
  | c :: rest =>
    by_cases begins : delimiter <+: c :: rest
    · exact ⟨[], c :: rest, rfl, .nil, .inl begins⟩
    by_cases feed : oneLine ∧ c = '\n'
    · exact ⟨[], c :: rest, rfl, .nil, .inr (.inr (.inr ⟨feed.1, by rw [feed.2]; rfl⟩))⟩
    by_cases slash : c = '\\'
    · subst slash
      match rest with
      | [] => exact ⟨[], _, rfl, .nil, .inr (.inr (.inl rfl))⟩
      | d :: rest =>
        obtain ⟨body, tail, rfl, free, stops⟩ := exists_free delimiter rest oneLine
        exact ⟨'\\' :: d :: body, tail, rfl, .escaped d free, stops⟩
    · obtain ⟨body, tail, rfl, free, stops⟩ := exists_free delimiter rest oneLine
      have unbroken : oneLine → c ≠ '\n' := fun line same => feed ⟨line, same⟩
      exact ⟨c :: body, tail, rfl, .plain slash begins unbroken free, stops⟩

private theorem longLiteral_undelimited (solid : c ≠ '\\')
    (undelimited : ¬ [quote, quote, quote] <+: c :: rest) :
    longLiteral quote (c :: rest) =
      (c :: (longLiteral quote rest).1, (longLiteral quote rest).2) := by
  rw [longLiteral_plain solid, if_neg]
  rintro ⟨rfl, pair⟩
  exact undelimited (by rw [List.prefix_iff_eq_take]; simp [pair])

/-- The reader passes over a text without a delimiter. -/
theorem Free.shortLiteral (free : Free [quote] tail True text) :
    shortLiteral quote (text ++ tail) =
      (text ++ (shortLiteral quote tail).1, (shortLiteral quote tail).2) := by
  induction free with
  | nil => rfl
  | escaped c _ ih => rw [List.cons_append, List.cons_append, Expr.shortLiteral, ih]; rfl
  | @plain c text solid undelimited unbroken _ ih =>
    have other : c ≠ quote := by
      rintro rfl
      exact undelimited (by simp)
    rw [List.cons_append, shortLiteral_plain solid, if_neg other, if_neg (unbroken trivial), ih]
    rfl

private theorem Free.longLiteral (free : Free [quote, quote, quote] tail False text) :
    longLiteral quote (text ++ tail) =
      (text ++ (longLiteral quote tail).1, (longLiteral quote tail).2) := by
  induction free with
  | nil => rfl
  | escaped c _ ih => rw [List.cons_append, List.cons_append, Expr.longLiteral, ih]; rfl
  | plain solid undelimited _ _ ih =>
    rw [List.cons_append, longLiteral_undelimited solid undelimited, ih]
    rfl

private theorem Free.of_plain (solid : c ≠ '\\') (free : Free delimiter tail oneLine (c :: text)) :
    ¬ delimiter <+: c :: (text ++ tail) ∧ Free delimiter tail oneLine text := by
  cases free with
  | escaped _ _ => exact absurd rfl solid
  | plain _ undelimited _ rest => exact ⟨undelimited, rest⟩

private theorem Free.of_escaped (free : Free delimiter tail oneLine ('\\' :: c :: text)) :
    Free delimiter tail oneLine text := by
  cases free with
  | escaped _ rest => exact rest
  | plain solid _ _ _ => exact absurd rfl solid

/-- No free text goes on behind a delimiter. -/
theorem Free.not_append {further : Prop} (solid : quote ≠ '\\')
    (free : Free (quote :: delimiter) tail oneLine text) :
    ¬ Free (quote :: delimiter) rest further (text ++ (quote :: delimiter ++ more)) := by
  intro longer
  induction free with
  | nil =>
    rw [List.nil_append, List.cons_append] at longer
    refine (longer.of_plain solid).1 ?_
    rw [List.append_assoc, List.cons_prefix_cons]
    exact ⟨rfl, List.prefix_append _ _⟩
  | escaped c _ ih => exact ih longer.of_escaped
  | plain slash _ _ _ ih => exact ih (longer.of_plain slash).2

/-! What the reader does at the places where a free text stops. -/

private theorem shortLiteral_delimiter (solid : quote ≠ '\\') (rest : List Char) :
    shortLiteral quote (quote :: rest) = ([quote], rest) := by
  rw [shortLiteral_plain solid, if_pos rfl]

private theorem shortLiteral_line (quotes : isQuote quote = true)
    (ends : rest = [] ∨ rest.head? = some '\n') : shortLiteral quote rest = ([], rest) := by
  rcases ends with rfl | line
  · rfl
  · obtain ⟨more, rfl⟩ := List.head?_eq_some_iff.mp line
    exact shortLiteral_feed quotes more

private theorem shortLiteral_backslash (solid : quote ≠ '\\') :
    shortLiteral quote ['\\'] = (['\\'], []) := by
  simp [shortLiteral, solid.symm]

private theorem longLiteral_delimiter (solid : quote ≠ '\\') (rest : List Char) :
    longLiteral quote (quote :: quote :: quote :: rest) = ([quote, quote, quote], rest) := by
  rw [longLiteral_plain solid, if_pos ⟨rfl, rfl⟩]
  rfl

private theorem longLiteral_backslash (solid : quote ≠ '\\') :
    longLiteral quote ['\\'] = (['\\'], []) := by
  simp [longLiteral, solid.symm]

private theorem literalTail_long (quote : Char) (text : List Char) :
    literalTail quote (quote :: quote :: text) =
      (quote :: quote :: (longLiteral quote text).1, (longLiteral quote text).2) := by
  rw [literalTail, if_pos (by rfl)]
  rfl

private theorem literalTail_short (single : ¬ [quote, quote] <+: text) :
    literalTail quote text = shortLiteral quote text := by
  rw [literalTail, if_neg]
  intro pair
  exact single (by rw [List.prefix_iff_eq_take]; exact pair.symm)

/-- What begins with three quotes ends in a quote only if it is closed or goes on to the end
of the text. -/
theorem sealed_longLiteral (quotes : isQuote quote = true) (text : List Char)
    (last : (quote :: (longLiteral quote text).1).getLast? = some quote) :
    Sealed (longLiteral quote text).2 (quote :: quote :: quote :: (longLiteral quote text).1) := by
  have solid := (quote_ne quotes).2.2
  obtain ⟨body, tail, rfl, free, stops⟩ := exists_free [quote, quote, quote] text False
  rw [free.longLiteral] at last ⊢
  rcases stops with ⟨rest, rfl⟩ | rfl | rfl | ⟨none, _⟩
  · have ends := longLiteral_delimiter solid rest
    rw [show [quote, quote, quote] ++ rest = quote :: quote :: quote :: rest from rfl, ends]
    exact .inl (.long quotes free)
  · rw [Expr.longLiteral, List.append_nil] at last ⊢
    exact .inr (.long quotes free rfl last)
  · rw [longLiteral_backslash solid, ← List.cons_append, List.getLast?_concat] at last
    exact absurd (Option.some.inj last).symm solid
  · exact none.elim

/-- What begins with one quote ends in a quote only if it is closed or goes on to the end of
the line or of the text. -/
theorem sealed_shortLiteral (quotes : isQuote quote = true) (single : ¬ [quote, quote] <+: text)
    (last : (shortLiteral quote text).1.getLast? = some quote) :
    Sealed (shortLiteral quote text).2 (quote :: (shortLiteral quote text).1) := by
  have solid := (quote_ne quotes).2.2
  have unclosed {body rest : List Char} (free : Free [quote] rest True body)
      (ends : rest = [] ∨ rest.head? = some '\n')
      (last : (body ++ (shortLiteral quote rest).1).getLast? = some quote) :
      Sealed (shortLiteral quote rest).2 (quote :: (body ++ (shortLiteral quote rest).1)) := by
    rw [shortLiteral_line quotes ends, List.append_nil] at last ⊢
    exact .inr (.short quotes free ends last)
  obtain ⟨body, tail, rfl, free, stops⟩ := exists_free [quote] text True
  rw [free.shortLiteral] at last ⊢
  rcases stops with ⟨rest, rfl⟩ | stops | rfl | ⟨_, stops⟩
  · rw [List.singleton_append] at single free ⊢
    rw [shortLiteral_delimiter solid]
    exact .inl (.short quotes (by rwa [List.cons_prefix_cons, and_iff_right rfl]) free)
  · exact unclosed free (.inl stops) last
  · rw [shortLiteral_backslash solid, List.getLast?_concat] at last
    exact absurd (Option.some.inj last).symm solid
  · exact unclosed free (.inr stops) last

private theorem sealed_literalTail (quotes : isQuote quote = true) (text : List Char)
    (last : (literalTail quote text).1.getLast? = some quote) :
    Sealed (literalTail quote text).2 (quote :: (literalTail quote text).1) := by
  by_cases triple : [quote, quote] <+: text
  · obtain ⟨text, rfl⟩ := triple
    rw [List.cons_append, List.singleton_append, literalTail_long] at last ⊢
    exact sealed_longLiteral quotes text (by rwa [List.getLast?_cons_cons] at last)
  · rw [literalTail_short triple] at last ⊢
    exact sealed_shortLiteral quotes triple last

private theorem Complete.found (literal : Complete rest quoted) : Found rest quoted := by
  cases literal with
  | @short quote body quotes single free =>
    have solid := (quote_ne quotes).2.2
    refine ⟨quote, _, rfl, quotes, ?_, by simp⟩
    rw [List.append_assoc, List.singleton_append, literalTail_short, free.shortLiteral,
      shortLiteral_delimiter solid]
    intro pair
    exact single (List.cons_prefix_cons.mpr ⟨rfl, pair⟩)
  | @long quote body quotes free =>
    have solid := (quote_ne quotes).2.2
    have whole : quote :: quote :: (body ++ [quote, quote, quote]) ++ rest =
        quote :: quote :: (body ++ quote :: quote :: quote :: rest) := by simp
    refine ⟨quote, _, rfl, quotes, ?_, ?_⟩
    · rw [whole, literalTail_long, free.longLiteral, longLiteral_delimiter solid]
    · rw [← List.cons_append, ← List.cons_append, List.getLast?_append]
      rfl

private theorem Unclosed.found (literal : Unclosed rest quoted) : Found rest quoted := by
  cases literal with
  | @short quote body quotes free ends last =>
    refine ⟨quote, body, rfl, quotes, ?_, last⟩
    rw [literalTail_short, free.shortLiteral, shortLiteral_line quotes ends, List.append_nil]
    -- The literal is not empty, and its first character is no quote.
    cases free with
    | nil => cases last
    | escaped c _ => simp [(quote_ne quotes).2.2]
    | plain _ undelimited _ _ =>
      intro pair
      exact undelimited ((List.prefix_append [quote] [quote]).trans pair)
  | @long quote body quotes free ends last =>
    subst ends
    have passed := free.longLiteral
    rw [List.append_nil, Expr.longLiteral, List.append_nil] at passed
    refine ⟨quote, _, rfl, quotes, ?_, by rwa [List.getLast?_cons_cons]⟩
    rw [List.append_nil, literalTail_long, passed]

private theorem Sealed.found (literal : Sealed rest quoted) : Found rest quoted :=
  literal.elim Complete.found Unclosed.found

/-! Reading one literal and a row of them. -/

/-- A literal has characters between its quotes if it ends in the quote it begins with. -/
theorem literalBody?_isSome (quote : Char) (inside : List Char) :
    (literalBody? quote (quote :: inside)).isSome = true ↔ inside.getLast? = some quote := by
  match inside with
  | [] => simp [literalBody?]
  | c :: rest =>
    rw [literalBody?]
    split
    · next triple =>
      rw [Bool.and_eq_true, List.isSuffixOf_iff_suffix] at triple
      obtain ⟨front, whole⟩ := triple.2
      have last : (quote :: c :: rest).getLast? = some quote := by
        rw [← whole, List.getLast?_append]
        rfl
      rw [List.getLast?_cons_cons] at last
      exact iff_of_true rfl last
    · rw [List.getLast?_cons_cons]
      split
      · next closed =>
        rw [Bool.and_eq_true, beq_iff_eq] at closed
        exact iff_of_true rfl closed.2
      · next opened =>
        rw [Bool.and_eq_true, beq_iff_eq, not_and] at opened
        exact iff_of_false Bool.false_ne_true (opened (by simp))

/-- The letters of a literal are the ones that its text begins with. -/
theorem Leading.letters (before : Leading front) (quotes : isQuote quote = true)
    (rest : List Char) :
    ((front ++ quote :: rest).take 2).takeWhile isLiteralLetter = front := by
  have other : isLiteralLetter quote = false := by
    rw [isQuote, Bool.or_eq_true, beq_iff_eq, beq_iff_eq] at quotes
    rcases quotes with rfl | rfl <;> decide
  rw [← List.take_takeWhile, List.takeWhile_append_of_pos before.known,
    List.takeWhile_cons_of_neg (by simp [other]), List.append_nil,
    List.take_of_length_le before.few]

/-- A literal that is read stands at the beginning of the text, behind its letters. -/
theorem readLiteral?_sealed (read : readLiteral? text = some (body, rest)) :
    ∃ front quoted, text = front ++ (quoted ++ rest) ∧ Leading front ∧ Sealed rest quoted := by
  obtain ⟨back, whole⟩ :=
    (List.takeWhile_prefix (l := text.take 2) isLiteralLetter).trans (List.take_prefix 2 text)
  have before : Leading ((text.take 2).takeWhile isLiteralLetter) := by
    refine ⟨?_, fun c member => List.mem_takeWhile_imp member⟩
    exact (List.takeWhile_prefix isLiteralLetter).length_le.trans (List.length_take_le 2 text)
  rw [readLiteral?] at read
  generalize (text.take 2).takeWhile isLiteralLetter = front at whole before read
  subst whole
  rw [List.drop_left] at read
  split at read
  · cases read
  · next quote others =>
    split at read
    · next quotes =>
      simp only [Option.map_eq_some_iff, Prod.mk.injEq] at read
      obtain ⟨inside, found, -, rfl⟩ := read
      have last := (literalBody?_isSome quote (literalTail quote others).1).mp (by rw [found]; rfl)
      refine ⟨front, _, ?_, before, sealed_literalTail quotes others last⟩
      rw [List.cons_append, literalTail_append]
    · cases read

private theorem readLiteral?_of_sealed (before : Leading front) (literal : Sealed rest quoted) :
    ∃ value, readLiteral? (front ++ (quoted ++ rest)) = some (value, rest) := by
  obtain ⟨quote, inside, rfl, quotes, tail, last⟩ := literal.found
  obtain ⟨body, found⟩ := Option.isSome_iff_exists.mp ((literalBody?_isSome quote inside).mpr last)
  have letters := before.letters quotes (inside ++ rest)
  refine ⟨if front.any fun c => c == 'r' || c == 'R' then body else unescape body, ?_⟩
  rw [readLiteral?, List.cons_append]
  simp only [letters, List.drop_left, quotes, if_true, tail, found, Option.map_some]

/-- A text is read up to its end if every literal in it ends in its quote, and only then. -/
theorem readLiterals?_isSome (text : List Char) :
    (readLiterals? text).isSome = true ↔ Literals Sealed text := by
  constructor
  · intro read
    fun_induction readLiterals? text with
    | case1 text ended =>
      rw [List.isEmpty_iff.mp ended]
      exact .nil
    | case2 => cases read
    | case3 text _ value after found ih =>
      obtain ⟨front, quoted, rfl, before, literal⟩ := readLiteral?_sealed found
      exact .cons before literal (ih (by rwa [Option.isSome_map] at read))
  · intro row
    induction row with
    | nil => rw [readLiterals?]; rfl
    | @cons front rest quoted before literal _ ih =>
      obtain ⟨value, found⟩ := readLiteral?_of_sealed before literal
      rw [readLiterals?]
      split
      · rfl
      · split
        · next absent => cases found.symm.trans absent
        · next found' =>
          cases found.symm.trans found'
          rwa [Option.isSome_map]

private theorem readString?_isSome (text : List Char) :
    (readString? text).isSome = true ↔ trim text ≠ [] ∧ Literals Sealed (trim text) := by
  rw [← readLiterals?_isSome, readString?]
  split
  · next none => simp [none]
  · next shown => simp [shown]

/-! No literal is both closed and not. -/

private theorem Complete.not_unclosed (literal : Complete rest quoted) :
    ¬ Unclosed rest quoted := by
  intro unclosed
  cases literal with
  | @short quote body quotes single free =>
    have solid := (quote_ne quotes).2.2
    generalize whole : quote :: (body ++ [quote]) = quoted at unclosed
    cases unclosed with
    | short _ longer _ _ =>
      cases whole
      exact free.not_append solid longer
    | long _ _ _ _ =>
      obtain ⟨rfl, more⟩ := List.cons.inj whole
      have opens : [quote, quote, quote] <+: quote :: (body ++ [quote]) := by
        rw [more]
        exact List.prefix_append [quote, quote, quote] _
      rw [List.append_cons] at single
      exact single (opens.trans (List.prefix_append (quote :: (body ++ [quote])) rest))
  | @long quote body quotes free =>
    have solid := (quote_ne quotes).2.2
    generalize whole : quote :: quote :: quote :: (body ++ [quote, quote, quote]) = quoted at unclosed
    cases unclosed with
    | short _ longer _ _ =>
      cases whole
      exact (longer.of_plain solid).1 (List.prefix_append [quote] _)
    | long _ longer _ _ =>
      cases whole
      exact free.not_append solid longer

/-- There is one way to take a literal that ends in its quote from the beginning of a text. -/
theorem Sealed.unique {front' quoted' rest' : List Char} (literal : Sealed rest quoted)
    (before : Leading front) (before' : Leading front') (literal' : Sealed rest' quoted')
    (same : front ++ (quoted ++ rest) = front' ++ (quoted' ++ rest')) :
    quoted = quoted' ∧ rest = rest' := by
  obtain ⟨quote, inside, rfl, quotes, tail, -⟩ := literal.found
  obtain ⟨quote', inside', rfl, quotes', tail', -⟩ := literal'.found
  have fronts : front = front' := by
    rw [← before.letters quotes (inside ++ rest), ← before'.letters quotes' (inside' ++ rest')]
    exact congrArg (fun text => (text.take 2).takeWhile isLiteralLetter) same
  subst fronts
  rw [List.cons_append, List.cons_append] at same
  obtain ⟨rfl, insides⟩ := List.cons.inj (List.append_cancel_left same)
  rw [insides, tail'] at tail
  cases tail
  exact ⟨rfl, rfl⟩

/-- A row of literals that end in their quotes is complete, or it is misread. -/
theorem literals_sealed_iff (text : List Char) :
    Literals Sealed text ↔ Literals Complete text ∨ Misread text := by
  constructor
  · intro row
    induction row with
    | nil => exact .inl .nil
    | cons before literal behind ih =>
      rcases literal with complete | unclosed
      · exact ih.imp (.cons before complete) (.behind before complete)
      · exact .inr (.here before unclosed behind)
  · rintro (row | row)
    · induction row with
      | nil => exact .nil
      | cons before literal _ ih => exact .cons before (.inl literal) ih
    · induction row with
      | here before literal behind => exact .cons before (.inr literal) behind
      | behind before literal _ ih => exact .cons before (.inl literal) ih

/-- The first literal of a complete row is complete, and so is the row behind it. -/
theorem Literals.uncons (before : Leading front) (literal : Sealed rest quoted)
    (row : Literals Complete (front ++ (quoted ++ rest))) :
    Complete rest quoted ∧ Literals Complete (trimStart rest) := by
  generalize whole : front ++ (quoted ++ rest) = text at row
  cases row with
  | nil =>
    obtain ⟨quote, inside, rfl, -⟩ := literal.found
    simp at whole
  | cons before' literal' behind =>
    obtain ⟨rfl, rfl⟩ := literal.unique before before' (.inl literal') whole
    exact ⟨literal', behind⟩

private theorem Misread.not_complete (misread : Misread text) : ¬ Literals Complete text := by
  intro row
  induction misread with
  | here before literal _ => exact (row.uncons before (.inr literal)).1.not_unclosed literal
  | behind before literal _ ih => exact ih (row.uncons before (.inl literal)).2

/-- A text is read as a string exactly if it is one, unless one of its literals ends in a
quote that does not close it. -/
theorem string_recognised_iff (text : List Char) :
    ((readString? text).isSome = true ↔ IsString text) ↔ ¬ Misread (trim text) := by
  rw [readString?_isSome, IsString, literals_sealed_iff]
  constructor
  · intro agree misread
    have shown : trim text ≠ [] := by
      intro none
      rw [none] at misread
      exact misread.not_complete .nil
    exact misread.not_complete (agree.mp ⟨shown, .inr misread⟩).2
  · intro read
    exact and_congr_right fun _ => or_iff_left read

/-- The one quote that could close the literal is protected by the backslash. -/
theorem protected_quote_closes :
    (readString? "'it\\'".toList).isSome = true ∧ ¬ IsString "'it\\'".toList := by
  have shown : trim "'it\\'".toList = ['\'', 'i', 't', '\\', '\''] := by decide
  have inside : Free ['\''] [] True ['i', 't', '\\', '\''] :=
    .plain (by decide) (by decide) (by decide)
      (.plain (by decide) (by decide) (by decide) (.escaped '\'' .nil))
  have misread : Misread ([] ++ ('\'' :: ['i', 't', '\\', '\''] ++ [])) :=
    .here ⟨by decide, nofun⟩ (.short (by decide) inside (.inl rfl) rfl) .nil
  constructor
  · rw [readString?_isSome, shown, literals_sealed_iff]
    exact ⟨by decide, .inr misread⟩
  · rw [IsString, shown]
    exact fun complete => misread.not_complete complete.2

end ApiScribe.Expr
