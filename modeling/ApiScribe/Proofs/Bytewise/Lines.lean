import ApiScribe.Proofs.Bytewise.Statements
import ApiScribe.Proofs.Source.Lines
import ApiScribe.Source.File

/-! Logical lines and statements by index. Each character and each line that is looked up is
there, and the scan moves on with every step. -/
namespace ApiScribe.Bytewise
open Text ApiScribe.Expr ApiScribe.Source

/-- What a literal goes on with from the character at `i`, and where it ends. -/
def literalFrom (chars : List Char) (quote : Char) (triple : Bool) (i : Nat) : List Char × Nat :=
  if inside : i < chars.length then
    if chars[i] = '\\' then
      let found := literalFrom chars quote triple (i + 2)
      (chars[i] :: (chars[i + 1]?.toList ++ found.1), found.2)
    else if chars[i] = quote ∧ triple = false then ([quote], i + 1)
    else if chars[i] = quote ∧ doubledAt chars quote i then ([quote, quote, quote], i + 3)
    else if chars[i] = '\n' ∧ triple = false then ([], i)
    else
      let found := literalFrom chars quote triple (i + 1)
      (chars[i] :: found.1, found.2)
  else ([], i)
termination_by chars.length - i

/-- The line feed that ends a comment, or the end of the source. -/
def commentEnd (chars : List Char) (i : Nat) : Nat :=
  if inside : i < chars.length then
    if chars[i] = '\n' then i else commentEnd chars (i + 1)
  else i
termination_by chars.length - i

/-- The column behind an indentation and the character that ends it. -/
def indentFrom (chars : List Char) (column i : Nat) : Nat × Nat :=
  if inside : i < chars.length then
    if isIndent chars[i] then
      indentFrom chars (if chars[i] = '\t' then (column / 8 + 1) * 8 else column + 1) (i + 1)
    else (column, i)
  else (column, i)
termination_by chars.length - i

variable {c quote : Char} {chars rest text : List Char} {i : Nat} {triple : Bool}

private theorem le_literalFrom (chars : List Char) (quote : Char) (triple : Bool) (i : Nat) :
    i ≤ (literalFrom chars quote triple i).2 := by
  fun_induction literalFrom chars quote triple i with
  | case1 i inside slash found ih => exact Nat.le_trans (Nat.le_add_right i 2) ih
  | case2 i inside solid closes => exact Nat.le_succ i
  | case3 i inside solid goes closes => exact Nat.le_add_right i 3
  | case4 i inside solid goes apart feed => exact Nat.le_refl i
  | case5 i inside solid goes apart other found ih => exact Nat.le_trans (Nat.le_succ i) ih
  | case6 i outside => exact Nat.le_refl i

private theorem lt_literalFrom (chars : List Char) (quote : Char) (triple : Bool) (i : Nat) :
    i < (literalFrom chars quote triple (i + if triple then 3 else 1)).2 := by
  have moved : i < i + if triple then 3 else 1 := by split <;> omega
  exact Nat.lt_of_lt_of_le moved (le_literalFrom ..)

private theorem le_commentEnd (chars : List Char) (i : Nat) : i ≤ commentEnd chars i := by
  fun_induction commentEnd chars i <;> omega

private theorem le_indentFrom (chars : List Char) (column i : Nat) :
    i ≤ (indentFrom chars column i).2 := by
  fun_induction indentFrom chars column i with
  | case1 column i inside indent ih =>
    exact Nat.le_trans (Nat.le_succ i) ih
  | case2 column i inside ends => exact Nat.le_refl i
  | case3 column i outside => exact Nat.le_refl i

/-- The logical lines from the character at `i` on, where `draft` has been read. -/
def linesAt (chars : List Char) (draft : Draft) (i : Nat) : List Line :=
  if inside : i < chars.length then
    if chars[i] = '#' then linesAt chars draft (commentEnd chars (i + 1))
    else if isQuote chars[i] then
      let triple := doubledAt chars chars[i] i
      let width := if triple then 3 else 1
      let found := literalFrom chars chars[i] triple (i + width)
      let literal := List.replicate width chars[i] ++ found.1
      linesAt chars ((draft.push literal).advance literal) found.2
    else if isOpening chars[i] then
      linesAt chars { draft.push [chars[i]] with depth := draft.depth + 1 } (i + 1)
    else if isClosing chars[i] then
      linesAt chars { draft.push [chars[i]] with depth := draft.depth - 1 } (i + 1)
    else if chars[i] = '\\' ∧ chars[i + 1]? = some '\n' then
      linesAt chars ((draft.push [' ']).advance ['\n']) (i + 2)
    else if chars[i] = '\r' then linesAt chars draft (i + 1)
    else if chars[i] = '\n' then
      if 0 < draft.depth then linesAt chars ((draft.push [' ']).advance ['\n']) (i + 1)
      else
        let indent := indentFrom chars 0 (i + 1)
        draft.finish ++ linesAt chars (.blank (draft.current + 1) indent.1) indent.2
    else linesAt chars (draft.push [chars[i]]) (i + 1)
  else draft.finish
termination_by chars.length - i
decreasing_by
  all_goals try omega
  · have onward := le_commentEnd chars (i + 1)
    omega
  · exact Nat.sub_lt_sub_left inside (lt_literalFrom chars chars[i] _ i)
  · have onward := le_indentFrom chars 0 (i + 1)
    omega

/-- The logical lines of a source. -/
def lines (source : List Char) : List Line :=
  let indent := indentFrom source 0 0
  linesAt source (.blank 1 indent.1) indent.2

/-! Places in a source. -/

section
variable {α : Type} {items tail : List α} {item : α}

private theorem of_ahead (ahead : items.drop i = item :: tail) :
    ∃ inside : i < items.length, items[i] = item ∧ items.drop (i + 1) = tail := by
  have inside : i < items.length := by
    have size := congrArg List.length ahead
    rw [List.length_drop, List.length_cons] at size
    omega
  have parts := (List.drop_eq_getElem_cons inside).symm.trans ahead
  exact ⟨inside, (List.cons.inj parts).1, (List.cons.inj parts).2⟩

private theorem not_inside (ahead : items.drop i = []) : ¬ i < items.length :=
  Nat.not_lt_of_le (List.drop_eq_nil_iff.mp ahead)

end

private theorem drop_ahead (count : Nat) (ahead : chars.drop i = c :: rest) :
    chars.drop (i + 1 + count) = rest.drop count := by
  obtain ⟨-, -, behind⟩ := of_ahead ahead
  rw [← List.drop_drop, behind]

private theorem doubledAt_ahead (ahead : chars.drop i = c :: rest) :
    doubledAt chars c i = true ↔ rest.take 2 = [c, c] := by
  obtain ⟨inside, -⟩ := of_ahead ahead
  refine doubledAt_iff ⟨chars.take i, ?_, List.length_take_of_le (Nat.le_of_lt inside)⟩
  rw [← ahead, List.take_append_drop]

private theorem getElem?_ahead (ahead : chars.drop i = text) : chars[i]? = text.head? := by
  rw [← ahead, List.head?_drop]

private theorem commentEnd_ahead (ahead : chars.drop i = text) :
    chars.drop (commentEnd chars i) = text.dropWhile (· ≠ '\n') := by
  induction text generalizing i with
  | nil => rwa [commentEnd, dif_neg (not_inside ahead)]
  | cons c rest ih =>
    obtain ⟨inside, here, behind⟩ := of_ahead ahead
    rw [commentEnd, dif_pos inside, here]
    by_cases feed : c = '\n'
    · rw [if_pos feed, ahead, List.dropWhile_cons_of_neg (by simpa using feed)]
    · rw [if_neg feed, ih behind, List.dropWhile_cons_of_pos (by simpa using feed)]

private theorem indentFrom_ahead (column : Nat) (ahead : chars.drop i = text) :
    (indentFrom chars column i).1 = (text.takeWhile isIndent).foldl
        (fun column c => if c = '\t' then (column / 8 + 1) * 8 else column + 1) column ∧
      chars.drop (indentFrom chars column i).2 = text.dropWhile isIndent := by
  induction text generalizing i column with
  | nil =>
    rw [indentFrom, dif_neg (not_inside ahead)]
    exact ⟨rfl, ahead⟩
  | cons c rest ih =>
    obtain ⟨inside, here, behind⟩ := of_ahead ahead
    rw [indentFrom, dif_pos inside, here]
    by_cases indent : isIndent c = true
    · rw [if_pos indent, List.takeWhile_cons_of_pos indent, List.dropWhile_cons_of_pos indent]
      exact ih _ behind
    · rw [if_neg indent, List.takeWhile_cons_of_neg indent, List.dropWhile_cons_of_neg indent]
      exact ⟨rfl, ahead⟩

private theorem literalFrom_nil (ahead : chars.drop i = []) :
    literalFrom chars quote triple i = ([], i) := by
  rw [literalFrom, dif_neg (not_inside ahead)]

/-- A backslash takes the character behind it along, if there is one. -/
theorem literalFrom_slash (ahead : chars.drop i = '\\' :: rest) :
    literalFrom chars quote triple i =
      ('\\' :: (rest.head?.toList ++ (literalFrom chars quote triple (i + 2)).1),
        (literalFrom chars quote triple (i + 2)).2) := by
  obtain ⟨inside, here, behind⟩ := of_ahead ahead
  rw [literalFrom, dif_pos inside, if_pos here, here, getElem?_ahead behind]

/-- A backslash at the very end leads beyond the source. -/
theorem literalFrom_last (ahead : chars.drop i = ['\\']) :
    literalFrom chars quote triple i = (['\\'], i + 2) ∧ chars.drop (i + 2) = [] := by
  have beyond : chars.drop (i + 2) = [] := drop_ahead 1 ahead
  rw [literalFrom_slash ahead, literalFrom_nil beyond]
  exact ⟨rfl, beyond⟩

private theorem literalFrom_plain (ahead : chars.drop i = c :: rest) (solid : c ≠ '\\') :
    literalFrom chars quote triple i =
      if c = quote ∧ triple = false then ([quote], i + 1)
      else if c = quote ∧ rest.take 2 = [quote, quote] then ([quote, quote, quote], i + 3)
      else if c = '\n' ∧ triple = false then ([], i)
      else (c :: (literalFrom chars quote triple (i + 1)).1,
        (literalFrom chars quote triple (i + 1)).2) := by
  obtain ⟨inside, here, -⟩ := of_ahead ahead
  have closes : c = quote ∧ doubledAt chars quote i = true ↔
      c = quote ∧ rest.take 2 = [quote, quote] := by
    refine and_congr_right fun same => ?_
    subst same
    exact doubledAt_ahead ahead
  rw [literalFrom, dif_pos inside, here, if_neg solid]
  simp only [closes]

/-- The literal with one quote that is found by index is the one found in the text. -/
private theorem literalFrom_short (quoted : isQuote quote = true) (ahead : chars.drop i = text) :
    (literalFrom chars quote false i).1 = (shortLiteral quote text).1 ∧
      chars.drop (literalFrom chars quote false i).2 = (shortLiteral quote text).2 := by
  fun_induction shortLiteral quote text generalizing i with
  | case1 =>
    rw [literalFrom_nil ahead]
    exact ⟨rfl, ahead⟩
  | case2 c rest inside after cut ih =>
    obtain ⟨-, -, behind⟩ := of_ahead ahead
    obtain ⟨-, -, further⟩ := of_ahead behind
    obtain ⟨body, stop⟩ := ih further
    rw [cut] at body stop
    rw [literalFrom_slash ahead]
    exact ⟨congrArg ('\\' :: c :: ·) body, stop⟩
  | case3 rest solid =>
    obtain ⟨-, -, behind⟩ := of_ahead ahead
    rw [literalFrom_plain ahead (quote_ne quoted).2.2, if_pos ⟨rfl, rfl⟩]
    exact ⟨rfl, behind⟩
  | case4 rest solid other =>
    rw [literalFrom_plain ahead (by decide), if_neg fun closes => other closes.1,
      if_neg fun closes => other closes.1, if_pos ⟨rfl, rfl⟩]
    exact ⟨rfl, ahead⟩
  | case5 c rest solid other goes inside after cut ih =>
    by_cases slash : c = '\\'
    · obtain rfl := eq_nil_of_lone solid slash
      subst slash
      cases cut
      obtain ⟨same, beyond⟩ : literalFrom chars quote false i = _ ∧ _ := literalFrom_last ahead
      rw [same]
      exact ⟨rfl, beyond⟩
    · obtain ⟨-, -, behind⟩ := of_ahead ahead
      obtain ⟨body, stop⟩ := ih behind
      rw [cut] at body stop
      rw [literalFrom_plain ahead slash, if_neg fun closes => other closes.1,
        if_neg fun closes => other closes.1, if_neg fun feed => goes feed.1]
      exact ⟨congrArg (c :: ·) body, stop⟩

/-- The literal with three quotes that is found by index is the one found in the text. -/
private theorem literalFrom_long (quoted : isQuote quote = true) (ahead : chars.drop i = text) :
    (literalFrom chars quote true i).1 = (longLiteral quote text).1 ∧
      chars.drop (literalFrom chars quote true i).2 = (longLiteral quote text).2 := by
  fun_induction longLiteral quote text generalizing i with
  | case1 =>
    rw [literalFrom_nil ahead]
    exact ⟨rfl, ahead⟩
  | case2 c rest inside after cut ih =>
    obtain ⟨-, -, behind⟩ := of_ahead ahead
    obtain ⟨-, -, further⟩ := of_ahead behind
    obtain ⟨body, stop⟩ := ih further
    rw [cut] at body stop
    rw [literalFrom_slash ahead]
    exact ⟨congrArg ('\\' :: c :: ·) body, stop⟩
  | case3 c rest solid closes =>
    obtain ⟨rfl, doubled⟩ := closes
    rw [literalFrom_plain ahead (quote_ne quoted).2.2, if_neg (by simp), if_pos ⟨rfl, doubled⟩]
    exact ⟨rfl, drop_ahead 2 ahead⟩
  | case4 c rest solid goes inside after cut ih =>
    by_cases slash : c = '\\'
    · obtain rfl := eq_nil_of_lone solid slash
      subst slash
      cases cut
      obtain ⟨same, beyond⟩ : literalFrom chars quote true i = _ ∧ _ := literalFrom_last ahead
      rw [same]
      exact ⟨rfl, beyond⟩
    · obtain ⟨-, -, behind⟩ := of_ahead ahead
      obtain ⟨body, stop⟩ := ih behind
      rw [cut] at body stop
      rw [literalFrom_plain ahead slash, if_neg (by simp), if_neg goes, if_neg (by simp)]
      exact ⟨congrArg (c :: ·) body, stop⟩

/-- A literal by index is the one that its characters make. -/
theorem literal_ahead (quoted : isQuote c = true) (ahead : chars.drop i = c :: rest) :
    List.replicate (if doubledAt chars c i then 3 else 1) c ++
        (literalFrom chars c (doubledAt chars c i)
          (i + if doubledAt chars c i then 3 else 1)).1 = c :: (literalTail c rest).1 ∧
      chars.drop (literalFrom chars c (doubledAt chars c i)
        (i + if doubledAt chars c i then 3 else 1)).2 = (literalTail c rest).2 := by
  obtain ⟨-, -, behind⟩ := of_ahead ahead
  rw [literalTail]
  cases triple : doubledAt chars c i with
  | true =>
    have doubled := (doubledAt_ahead ahead).mp triple
    obtain ⟨body, stop⟩ := literalFrom_long quoted (drop_ahead 2 ahead)
    rw [if_pos doubled]
    exact ⟨congrArg (c :: c :: c :: ·) body, stop⟩
  | false =>
    have single : ¬ rest.take 2 = [c, c] := fun doubled => by
      rw [(doubledAt_ahead ahead).mpr doubled] at triple
      cases triple
    obtain ⟨body, stop⟩ := literalFrom_short quoted behind
    rw [if_neg single]
    exact ⟨congrArg (c :: ·) body, stop⟩

/-- The reader by index is at the text that the other reader still has before it. -/
private theorem linesAt_eq (draft : Draft) (ahead : chars.drop i = text) :
    linesAt chars draft i = draft.lines text := by
  induction bound : text.length using Nat.strongRecOn generalizing text draft i with
  | _ length shorter =>
    rcases text with _ | ⟨c, rest⟩
    · rw [linesAt, dif_neg (not_inside ahead), Draft.lines_nil]
    · obtain ⟨inside, here, behind⟩ := of_ahead ahead
      have next {text : List Char} {j : Nat} (draft : Draft) (fewer : text.length ≤ rest.length)
          (ahead : chars.drop j = text) : linesAt chars draft j = draft.lines text :=
        shorter _ (by rw [← bound, List.length_cons]; omega) draft ahead rfl
      rw [linesAt, dif_pos inside, Draft.lines.eq_def]
      simp only [here, getElem?_ahead behind]
      by_cases comment : c = '#'
      · rw [if_pos comment, if_pos comment]
        exact next _ (List.dropWhile_suffix _).length_le (commentEnd_ahead behind)
      rw [if_neg comment, if_neg comment]
      by_cases quoted : isQuote c = true
      · obtain ⟨body, stop⟩ := literal_ahead quoted ahead
        rw [if_pos quoted, if_pos quoted, body]
        exact next _ (literalTail_after_length_le c rest) stop
      rw [if_neg quoted, if_neg quoted]
      by_cases opens : isOpening c = true
      · rw [if_pos opens, if_pos opens]
        exact next _ (Nat.le_refl _) behind
      rw [if_neg opens, if_neg opens]
      by_cases closes : isClosing c = true
      · rw [if_pos closes, if_pos closes]
        exact next _ (Nat.le_refl _) behind
      rw [if_neg closes, if_neg closes]
      by_cases joins : c = '\\' ∧ rest.head? = some '\n'
      · rw [if_pos joins, if_pos joins]
        have fewer : (rest.drop 1).length ≤ rest.length := by simp
        exact next _ fewer (drop_ahead 1 ahead)
      rw [if_neg joins, if_neg joins]
      by_cases carriage : c = '\r'
      · rw [if_pos carriage, if_pos carriage]
        exact next _ (Nat.le_refl _) behind
      rw [if_neg carriage, if_neg carriage]
      by_cases feed : c = '\n'
      · rw [if_pos feed, if_pos feed]
        split
        · exact next _ (Nat.le_refl _) behind
        · obtain ⟨column, start⟩ := indentFrom_ahead 0 behind
          rw [next _ (List.dropWhile_suffix _).length_le start, column]
          rfl
      · rw [if_neg feed, if_neg feed]
        exact next _ (Nat.le_refl _) behind

private theorem lines_eq (source : List Char) : lines source = Source.lines source := by
  have ahead : source.drop 0 = source := rfl
  obtain ⟨column, start⟩ := indentFrom_ahead 0 ahead
  rw [lines, linesAt_eq _ start, column]
  rfl

/-! Statements. -/

/-- Where the deeper lines end that begin at `i`. -/
def bodyEnd (lines : List Line) (base i : Nat) : Nat :=
  if inside : i < lines.length then
    if base < lines[i].indent then bodyEnd lines base (i + 1) else i
  else i
termination_by lines.length - i

private theorem le_bodyEnd (lines : List Line) (base i : Nat) : i ≤ bodyEnd lines base i := by
  fun_induction bodyEnd lines base i <;> omega

private theorem bodyEnd_le {lines : List Line} (base : Nat) (bound : i ≤ lines.length) :
    bodyEnd lines base i ≤ lines.length := by
  fun_induction bodyEnd lines base i with
  | case1 i inside deeper ih => exact ih inside
  | case2 i inside shallow => exact bound
  | case3 i outside => exact bound

/-- The lines from `start` up to `stop`, which have to be places among them in this order. -/
def linesBetween (lines : List Line) (start stop : Nat) (_ordered : start ≤ stop)
    (_bound : stop ≤ lines.length) : List Line := (lines.drop start).take (stop - start)

/-- The statements of lines from `i` on, where `decorators` wait for the next head. -/
def statementsFrom (lines : List Line) (base : Nat) (decorators : List Line) (i : Nat) :
    List Statement :=
  if inside : i < lines.length then
    if base < lines[i].indent then statementsFrom lines base decorators (i + 1)
    else if lines[i].isDecorator then statementsFrom lines base (decorators ++ [lines[i]]) (i + 1)
    else
      ⟨decorators, lines[i], linesBetween lines (i + 1) (bodyEnd lines base (i + 1))
        (le_bodyEnd lines base (i + 1)) (bodyEnd_le base inside)⟩ ::
          statementsFrom lines base [] (bodyEnd lines base (i + 1))
  else []
termination_by lines.length - i
decreasing_by
  · omega
  · omega
  · have onward := le_bodyEnd lines base (i + 1)
    omega

def statements (lines : List Line) : List Statement :=
  match baseIndent? lines with
  | none => []
  | some base => statementsFrom lines base [] 0

private theorem drop_bodyEnd {lines rest : List Line} (base : Nat) (ahead : lines.drop i = rest) :
    lines.drop (bodyEnd lines base i) = rest.dropWhile fun line => base < line.indent := by
  induction rest generalizing i with
  | nil => rwa [bodyEnd, dif_neg (not_inside ahead)]
  | cons line rest ih =>
    obtain ⟨inside, here, behind⟩ := of_ahead ahead
    rw [bodyEnd, dif_pos inside, here]
    by_cases deeper : base < line.indent
    · rw [if_pos deeper, ih behind, List.dropWhile_cons_of_pos (by simpa using deeper)]
    · rw [if_neg deeper, ahead, List.dropWhile_cons_of_neg (by simpa using deeper)]

/-- The body of a statement is cut out at the first line that is no deeper. -/
private theorem linesBetween_bodyEnd {lines rest : List Line} (base : Nat)
    (ahead : lines.drop i = rest) (ordered : i ≤ bodyEnd lines base i)
    (bound : bodyEnd lines base i ≤ lines.length) :
    linesBetween lines i (bodyEnd lines base i) ordered bound =
      rest.takeWhile fun line => base < line.indent := by
  have behind := drop_bodyEnd base ahead
  obtain ⟨count, stop⟩ := Nat.exists_eq_add_of_le ordered
  have parts := List.take_append_drop count rest
  rw [stop, ← List.drop_drop, ahead] at behind
  rw [behind] at parts
  have cut : rest.take count = rest.takeWhile fun line => base < line.indent :=
    List.append_cancel_right (parts.trans List.takeWhile_append_dropWhile.symm)
  rw [linesBetween, ahead, ← cut]
  congr 1
  omega

/-- Deeper lines that follow no decorator are passed over. -/
theorem statementsAt_deeper (base : Nat) (decorators rest : List Line) :
    statementsAt base decorators (rest.dropWhile fun line => base < line.indent) =
      statementsAt base decorators rest := by
  induction rest with
  | nil => rfl
  | cons line rest ih =>
    by_cases deeper : base < line.indent
    · rw [List.dropWhile_cons_of_pos (by simpa using deeper), ih, statementsAt, if_pos deeper]
    · rw [List.dropWhile_cons_of_neg (by simpa using deeper)]

/-- Grouping by index takes what grouping by what is left takes. -/
private theorem statementsFrom_eq {lines rest : List Line} (base : Nat) (decorators : List Line)
    (ahead : lines.drop i = rest) :
    statementsFrom lines base decorators i = statementsAt base decorators rest := by
  induction bound : rest.length using Nat.strongRecOn generalizing rest decorators i with
  | _ length shorter =>
    rcases rest with _ | ⟨line, rest⟩
    · rw [statementsFrom, dif_neg (not_inside ahead), statementsAt]
    · obtain ⟨inside, here, behind⟩ := of_ahead ahead
      have next {rest' : List Line} {j : Nat} (decorators : List Line)
          (fewer : rest'.length ≤ rest.length) (ahead : lines.drop j = rest') :
          statementsFrom lines base decorators j = statementsAt base decorators rest' :=
        shorter _ (by rw [← bound, List.length_cons]; omega) decorators ahead rfl
      rw [statementsFrom, dif_pos inside, statementsAt]
      simp only [here]
      by_cases deeper : base < line.indent
      · rw [if_pos deeper, if_pos deeper]
        exact next _ (Nat.le_refl _) behind
      rw [if_neg deeper, if_neg deeper]
      by_cases decorates : line.isDecorator = true
      · rw [if_pos decorates, if_pos decorates]
        exact next _ (Nat.le_refl _) behind
      · have below := drop_bodyEnd base behind
        rw [if_neg decorates, if_neg decorates, linesBetween_bodyEnd base behind,
          next [] (List.dropWhile_suffix _).length_le below, statementsAt_deeper]

private theorem statements_eq (lines : List Line) : statements lines = Source.statements lines := by
  rw [statements, Source.statements]
  cases baseIndent? lines with
  | none => rfl
  | some base => exact statementsFrom_eq base [] rfl

/-- The statements of lines by kind. -/
def block (lines : List Line) : Except Torn Block := do
  let kinds ← (statements lines).mapM kind
  return {
    classes := kinds.filterMap fun | .classDef found => some found | _ => none
    functions := kinds.filterMap fun | .function found => some found | _ => none
    assignments := kinds.filterMap fun | .assignment found => some found | _ => none
    imports := kinds.filterMap fun | .imported text => some text | _ => none
    expressions := kinds.filterMap fun | .expression line => some line | _ => none }

def file (path text : String) : Except Torn File := do
  return ⟨path, ← block (lines text.toList)⟩

private theorem block_eq (lines : List Line) : block lines = .ok (.ofLines lines) := by
  rw [block, mapM_ok fun statement _ => kind_eq statement, ok_bind, statements_eq]
  rfl

private theorem file_eq (path text : String) : file path text = .ok (.ofText path text) := by
  rw [file, lines_eq, block_eq]
  rfl

/-- A cut fails unless it is made between boundaries, in their order and within the text, and
the reader of bytes never fails: it comes to an end on each text, each block and each file, and
what it reads is what the reader of characters does. -/
theorem reads_untorn :
    (∀ text start stop, (∃ piece, slice text start stop = .ok piece) ↔
      start ≤ stop ∧ stop ≤ byteLength text ∧ Boundary text start ∧ Boundary text stop) ∧
    (∀ text, read text = .ok (Expr.read text)) ∧
    (∀ text, readString? text = .ok (Expr.readString? text)) ∧
    (∀ separator text, separator.toNat < 128 →
      splitTopLevel separator text = .ok (Expr.splitTopLevel separator text)) ∧
    (∀ line, readAssignment? line = .ok (Source.readAssignment? line)) ∧
    (∀ text, cutHeader text = .ok (Source.cutHeader text)) ∧
    (∀ lines, block lines = .ok (.ofLines lines)) ∧
    ∀ path text, file path text = .ok (.ofText path text) :=
  ⟨fun _ _ _ => slice_made_iff, read_eq, readString?_eq,
    fun _ text ascii => splitTopLevel_eq ascii text, readAssignment?_eq, cutHeader_eq, block_eq,
    file_eq⟩

/-- The backslash takes the first byte of the character behind it along, so that the scan goes
on from a byte at which no cut can be made. -/
theorem escaped_letter_untorn : ¬ Boundary "'\\é', é".toList 3 ∧
    splitTopLevel ',' "'\\é', é".toList = .ok ["'\\é'".toList, "é".toList] := by
  constructor
  · decide +kernel
  · rw [reads_untorn.2.2.2.1 ',' _ (by decide)]
    decide +kernel

end ApiScribe.Bytewise
