import ApiScribe.Proofs.Bytewise.Literals
import ApiScribe.Expr.Reader
import Mathlib.Data.List.TakeWhile

/-! Expressions read from bytes. Each place that a scan finds is a boundary of the text, so
that all cuts there can be made, and what is cut is what the reader of characters cuts. -/
namespace ApiScribe.Bytewise
open Text ApiScribe.Expr

/-- The text before and after the first `target` outside of brackets and literals. -/
def cutTopLevel? (target : Char) (text : List Char) :
    Except Torn (Option (List Char × List Char)) := do
  match findIndex? (bytes text) target.toUInt8 0 0 with
  | none => return none
  | some i =>
    let left ← slice text 0 i
    let right ← slice text (i + 1) (byteLength text)
    return some (left, right)

/-- The trimmed pieces between separators, empty ones among them. -/
def pieces (separator : Char) (text : List Char) : Except Torn (List (List Char)) :=
  match findIndex? (bytes text) separator.toUInt8 0 0 with
  | none => .ok [trim text]
  | some i =>
    match slice text 0 i with
    | .error torn => .error torn
    | .ok piece =>
      match _cut : slice text (i + separator.utf8Size) (byteLength text) with
      | .error torn => .error torn
      | .ok rest => (pieces separator rest).map (trim piece :: ·)
termination_by text.length
decreasing_by exact slice_shorter _cut (Nat.add_pos_right i separator.utf8Size_pos)

/-- The trimmed pieces between separators that hold something. -/
def splitTopLevel (separator : Char) (text : List Char) : Except Torn (List (List Char)) :=
  (pieces separator text).map (·.filter (!·.isEmpty))

/-- Whether the bracket at `start` is closed by the last byte. -/
def encloses (text : List Char) (start : Nat) : Bool :=
  closeIndex? (bytes text) 0 start == some (byteLength text - 1)

/-- The name and value of a named argument. -/
def cutNamed? (arg : List Char) : Except Torn (Option (String × List Char)) := do
  match findIndex? (bytes arg) '='.toUInt8 0 0 with
  | none => return none
  | some i =>
    if (bytes arg)[i + 1]? = some '='.toUInt8 then return none
    else
      let left ← slice arg 0 i
      if isIdentifier (trim left) then
        let right ← slice arg (i + 1) (byteLength arg)
        return some (String.ofList (trim left), right)
      else return none

/-- The callee and the text of the arguments, if a text is one call. -/
def cutCall? (text : List Char) : Except Torn (Option (String × List Char)) := do
  if '(' ∈ text then
    let start := byteLength (text.takeWhile (· ≠ '('))
    let callee ← slice text 0 start
    if isDottedName (trim callee) && encloses text start then
      let inside ← slice text (start + 1) (byteLength text - 1)
      return some (String.ofList (trim callee), inside)
    else return none
  else return none

def callShape (callee : String) (inside : List Char) : Except Torn Shape := do
  let args := (← splitTopLevel ',' inside).filter fun arg => arg.head? != some '*'
  let cuts ← args.mapM fun arg => (cutNamed? arg).map fun cut => (arg, cut)
  return .call callee ((cuts.filter fun cut => cut.2.isNone).map Prod.fst) (cuts.filterMap Prod.snd)

def groupShape (inside : List Char) : Except Torn Shape := do
  let items ← splitTopLevel ',' inside
  if isBlankLine inside then return .tuple []
  else if items.length = 1 && (trimEnd inside).getLast? != some ',' then return .group inside
  else return .tuple items

def dictShape? (inside : List Char) : Except Torn (Option Shape) := do
  let cuts ← (← splitTopLevel ',' inside).mapM (cutTopLevel? ':')
  return (cuts.mapM id).map .dict

/-- The shape of a text in brackets that begins with the byte `first`. -/
def bracketShape? (text : List Char) (first : UInt8) : Except Torn (Option Shape) := do
  if among openings first && encloses text 0 then
    let inside ← slice text 1 (byteLength text - 1)
    if first = '['.toUInt8 then return some (.list (← splitTopLevel ',' inside))
    else if first = '('.toUInt8 then return some (← groupShape inside)
    else return some ((← dictShape? inside).getD (.atom (.raw (String.ofList text))))
  else return none

def namedShape (text : List Char) : Except Torn Shape := do
  if isDottedName text then return .atom (.name (String.ofList text))
  else match ← cutCall? text with
    | some (callee, inside) => callShape callee inside
    | none => return .atom (.raw (String.ofList text))

def readConstant? (text : List Char) : Except Torn (Option Value) := do
  match ← readString? text with
  | some string => return some (.str (String.ofList string))
  | none =>
    if text = "None".toList then return some .none
    else if text = "True".toList then return some (.bool true)
    else if text = "False".toList then return some (.bool false)
    else return readNumber? text

/-- The shape of a text without blanks at its ends. -/
def trimmedShape (text : List Char) : Except Torn Shape := do
  match bytes text with
  | [] => return .atom (.raw "")
  | first :: _ =>
    match ← readConstant? text with
    | some value => return .atom value
    | none =>
      match ← bracketShape? text first with
      | some shape => return shape
      | none => namedShape text

def shape (text : List Char) : Except Torn Shape := trimmedShape (trim text)

variable {a c d target separator : Char} {text front left right tail : List Char}
  {row before after : List Atom} {start depth : Nat}

/-! Cuts outside of brackets and literals. -/

/-- The place of a cut and the slices on either side of it. -/
theorem slices_of_cut (ascii : target.toNat < 128)
    (found : Expr.cutTopLevel? target text = some (left, right)) :
    findIndex? (bytes text) target.toUInt8 0 0 = some (byteLength left) ∧
      slice text 0 (byteLength left) = .ok left ∧
      slice text (byteLength left + 1) (byteLength text) = .ok right := by
  have whole := cutTopLevel?_append found
  have size := utf8Size_ascii ascii
  refine ⟨?_, whole ▸ slice_front left _, ?_⟩
  · rw [findIndex?_cut ascii, found]
    rfl
  · refine slice_of (left ++ [target]) right [] ?_ ?_ ?_
    · simp [whole]
    · simp [size]
    · simp [whole, size, Nat.add_assoc]

/-- The byte behind a cut at an ASCII character is the first character on the right, if that one
is ASCII; a continuation byte is never mistaken for it. -/
theorem byte_behind_cut (ascii : target.toNat < 128) (ascii' : a.toNat < 128)
    (found : Expr.cutTopLevel? target text = some (left, right)) :
    (bytes text)[byteLength left + 1]? = some a.toUInt8 ↔ right.head? = some a := by
  have behind := byte_behind ascii' (left ++ [target]) right
  rw [List.append_assoc, List.singleton_append, ← cutTopLevel?_append found, byteLength_append,
    byteLength_cons, utf8Size_ascii ascii] at behind
  exact behind

/-- No position is found in the bytes of a text that has no place to be cut. -/
theorem index_of_uncut (ascii : target.toNat < 128)
    (none : Expr.cutTopLevel? target text = none) :
    findIndex? (bytes text) target.toUInt8 0 0 = .none := by
  rw [findIndex?_cut ascii, none]
  rfl

/-- Cutting slices of bytes never tears a character, and gives the halves that cutting characters
gives. -/
theorem cutTopLevel?_eq (ascii : target.toNat < 128) (text : List Char) :
    cutTopLevel? target text = .ok (Expr.cutTopLevel? target text) := by
  rw [cutTopLevel?]
  cases found : Expr.cutTopLevel? target text with
  | none =>
    rw [index_of_uncut ascii found]
    rfl
  | some cut =>
    obtain ⟨index, first, second⟩ := slices_of_cut ascii found
    simp only [index, first, second]
    rfl

/-- Pieces that hold something, from a text without a separator. -/
theorem pieces_uncut (none : findIndex? (bytes text) separator.toUInt8 0 0 = .none) :
    pieces separator text = .ok [trim text] := by
  rw [pieces, none]

/-- A piece is taken off at the index found, and the text behind it goes on. -/
private theorem pieces_cut {i : Nat}
    (index : findIndex? (bytes text) separator.toUInt8 0 0 = some i)
    (first : slice text 0 i = .ok left)
    (second : slice text (i + separator.utf8Size) (byteLength text) = .ok right) :
    pieces separator text = (pieces separator right).map (trim left :: ·) := by
  rw [pieces, index]
  simp only [first]
  split
  · next torn bad => exact absurd (second.symm.trans bad) nofun
  · next rest good =>
    cases second.symm.trans good
    rfl

/-- Splitting by bytes succeeds on every text, with the pieces of splitting by characters. -/
theorem splitTopLevel_eq (ascii : separator.toNat < 128) (text : List Char) :
    splitTopLevel separator text = .ok (Expr.splitTopLevel separator text) := by
  induction text using Expr.splitTopLevel.induct separator with
  | case1 text uncut =>
    rw [splitTopLevel, pieces_uncut (index_of_uncut ascii uncut), splitTopLevel_uncut uncut]
    rfl
  | case2 text left right cut ih =>
    obtain ⟨index, first, second⟩ := slices_of_cut ascii cut
    rw [← utf8Size_ascii ascii] at second
    rw [splitTopLevel] at ih ⊢
    rw [pieces_cut index first second, splitTopLevel_cut cut]
    cases others : pieces separator right with
    | error torn =>
      rw [others] at ih
      cases ih
    | ok rest =>
      rw [others] at ih
      rw [← Except.ok.inj ih]
      exact congrArg Except.ok (List.filter_append [trim left] rest)

/-! Texts in brackets. -/

/-- Whatever closes a bracket is a closing one. -/
private theorem closeFrom?_row (found : closeFrom? depth row = some (before, after)) :
    ∃ d, isClosing d = true ∧ row = before ++ .plain d :: after := by
  induction row generalizing depth before with
  | nil => cases found
  | cons atom row ih =>
    have step {inner : Nat}
        (found : (closeFrom? inner row).map (behind [atom]) = some (before, after)) :
        ∃ d, isClosing d = true ∧ atom :: row = before ++ .plain d :: after := by
      obtain ⟨⟨front, _⟩, later, same⟩ := Option.map_eq_some_iff.mp found
      cases same
      obtain ⟨d, closes, rfl⟩ := ih later
      exact ⟨d, closes, rfl⟩
    cases atom with
    | literal text => exact step (closeFrom?_literal depth text row ▸ found)
    | plain c =>
      by_cases opens : isOpening c = true
      · exact step (closeFrom?_opening opens depth row ▸ found)
      · rw [Bool.not_eq_true] at opens
        by_cases closes : isClosing c = true
        · rcases depth with _ | _ | depth
          · rw [closeFrom?, if_neg (by simp [opens]), if_pos closes] at found
            cases found
          · rw [closeFrom?_last opens closes] at found
            cases found
            exact ⟨c, closes, rfl⟩
          · exact step (closeFrom?_closing opens closes depth row ▸ found)
        · exact step (closeFrom?_other opens (by simpa using closes) depth row ▸ found)

private theorem closeFrom?_opened (opens : isOpening c = true)
    (found : closeFrom? 0 (.plain c :: row) = some (before, after)) :
    ∃ inner, before = .plain c :: inner := by
  rw [closeFrom?_opening opens] at found
  obtain ⟨⟨inner, _⟩, -, same⟩ := Option.map_eq_some_iff.mp found
  cases same
  exact ⟨inner, rfl⟩

private theorem openings_quotes : ∀ c ∈ openings, c ∉ quotes := by simp [openings, quotes]

/-- No atom is empty, so a position in a row of atoms is one in its text. -/
private theorem atoms_filled (text : List Char) : ∀ atom ∈ atoms text, atom.chars ≠ [] := by
  fun_induction atoms text with
  | case1 => simp
  | case2 c rest quoted ih => simpa [Atom.chars] using ih
  | case3 c rest unquoted ih => simpa [Atom.chars] using ih

/-- A text that begins with a bracket is closed by its last byte if the reader of characters
finds something enclosed, which is what stands between the two bytes. -/
theorem encloses_cases (opens : isOpening c = true) (front tail : List Char)
    (whole : text = front ++ c :: tail) :
    (enclosed? (c :: tail) = none ∧ encloses text (byteLength front) = false) ∨
      ∃ inside, enclosed? (c :: tail) = some inside ∧ encloses text (byteLength front) = true ∧
        slice text (byteLength front + 1) (byteLength text - 1) = .ok inside := by
  have place : At (bytes text) (byteLength front) (bytes (c :: tail)) :=
    ⟨bytes front, by rw [whole, bytes_append], length_bytes front⟩
  have close : closeIndex? (bytes text) 0 (byteLength front) =
      (closeFrom? 0 (atoms (c :: tail))).map (reach (byteLength front)) := closeIndex?_eq place
  have unquoted : isQuote c = false := by
    rw [← Bool.not_eq_true, isQuote_iff]
    exact openings_quotes c (isOpening_iff.mp opens)
  have size := utf8Size_ascii (openings_ascii c (isOpening_iff.mp opens))
  rw [encloses, close, enclosed?]
  cases found : closeFrom? 0 (atoms (c :: tail)) with
  | none => exact .inl ⟨rfl, rfl⟩
  | some cut =>
    obtain ⟨before, after⟩ := cut
    obtain ⟨row, rfl⟩ := closeFrom?_opened opens (atoms_plain unquoted tail ▸ found)
    obtain ⟨d, closes, parts⟩ := closeFrom?_row found
    have filled := atoms_filled (c :: tail)
    rw [parts] at filled
    have last := utf8Size_ascii (closings_ascii d (isClosing_iff.mp closes))
    have spelled : c :: tail = c :: written row ++ d :: written after := by
      rw [← written_atoms (c :: tail), parts]
      simp [written, Atom.chars]
    have reached : reach (byteLength front) (Atom.plain c :: row, after) =
        byteLength front + 1 + byteLength (written row) := by
      simp [reach, written, Atom.chars, size, Nat.add_assoc]
    have length : byteLength text =
        byteLength front + 1 + byteLength (written row) + 1 + byteLength (written after) := by
      rw [whole, spelled]
      simp [size, last]
      omega
    cases after with
    | nil =>
      have cut : slice text (byteLength front + 1) (byteLength text - 1) = .ok (written row) := by
        refine slice_of (front ++ [c]) (written row) [d] ?_ ?_ ?_
        · rw [whole, spelled]
          simp [written]
        · simp [size]
        · simp [length, size, written]
      refine .inr ⟨written row, rfl, ?_, cut⟩
      rw [Option.map_some, reached, length, beq_iff_eq]
      rfl
    | cons atom others =>
      have room : byteLength (written (atom :: others)) ≠ 0 := by
        rw [ne_eq, byteLength_eq_zero]
        have some := filled atom (by simp)
        simp [written, some]
      refine .inl ⟨rfl, ?_⟩
      rw [Option.map_some, reached, length, beq_eq_false_iff_ne, ne_eq, Option.some.injEq]
      omega

/-- A named argument is cut at its equals sign, unless another one follows. -/
private theorem cutNamed?_eq (arg : List Char) : cutNamed? arg = .ok (Expr.cutNamed? arg) := by
  rw [cutNamed?, Expr.cutNamed?]
  cases found : Expr.cutTopLevel? '=' arg with
  | none =>
    rw [index_of_uncut (by decide) found]
    rfl
  | some cut =>
    obtain ⟨left, right⟩ := cut
    obtain ⟨index, first, second⟩ := slices_of_cut (by decide) found
    have next : (bytes arg)[byteLength left + 1]? = some '='.toUInt8 ↔ right.head? = some '=' :=
      byte_behind_cut (by decide) (by decide) found
    simp only [index, first, second, next, ok_bind]
    by_cases doubled : right.head? = some '='
    · rw [if_pos doubled, if_pos (by simp [doubled])]
      rfl
    · rw [if_neg doubled]
      cases named : isIdentifier (trim left) with
      | false =>
        rw [if_neg (by decide), if_pos (by simp)]
        rfl
      | true =>
        rw [if_pos rfl, if_neg (by simp [doubled])]
        rfl

private theorem enclosed?_nil : enclosed? [] = none := by
  rw [enclosed?, atoms, closeFrom?]

/-- A call is cut at its first bracket, which is one byte. -/
private theorem cutCall?_eq (text : List Char) : cutCall? text = .ok (Expr.cutCall? text) := by
  rw [cutCall?, Expr.cutCall?]
  by_cases bracket : '(' ∈ text
  · obtain ⟨callee, tail, rfl, free⟩ := List.eq_append_cons_of_mem bracket
    have before : (callee ++ '(' :: tail).takeWhile (· ≠ '(') = callee := by
      rw [List.takeWhile_append_of_pos fun c member => by
        simpa using fun same : c = '(' => free (same ▸ member)]
      simp
    rw [if_pos bracket]
    simp only [before, List.drop_left, slice_front, ok_bind]
    cases named : isDottedName (trim callee) with
    | false => rfl
    | true =>
      have opening : isOpening '(' = true := rfl
      rcases encloses_cases opening callee tail rfl with
        ⟨absent, apart⟩ | ⟨inside, found, closed, cut⟩
      · simp only [absent, apart]
        rfl
      · simp only [found, closed, cut]
        rfl
  · have whole : text.takeWhile (· ≠ '(') = text := by
      rw [List.takeWhile_eq_self_iff]
      intro c member
      simpa using fun same : c = '(' => bracket (same ▸ member)
    rw [if_neg bracket]
    simp only [whole, List.drop_length, enclosed?_nil, Option.map_none, ite_self]
    rfl

/-! Shapes. -/

private theorem callShape_eq (callee : String) (inside : List Char) :
    callShape callee inside = .ok (Expr.callShape callee inside) := by
  rw [callShape, splitTopLevel_eq (by decide), ok_bind, Expr.callShape]
  generalize (Expr.splitTopLevel ',' inside).filter (fun arg => arg.head? != some '*') = args
  have cuts : (args.mapM fun arg => (cutNamed? arg).map fun cut => (arg, cut)) =
      .ok (args.map fun arg => (arg, Expr.cutNamed? arg)) :=
    mapM_ok fun arg _ => by rw [cutNamed?_eq]; rfl
  simp only [cuts, ok_bind, List.filter_map, List.map_map, List.filterMap_map]
  refine congrArg (fun positional => Except.ok (Shape.call callee positional _)) ?_
  exact List.map_id _

private theorem groupShape_eq (inside : List Char) :
    groupShape inside = .ok (Expr.groupShape inside) := by
  rw [groupShape, splitTopLevel_eq (by decide), ok_bind, Expr.groupShape]
  split
  · rfl
  · simp only
    split <;> rfl

private theorem dictShape?_eq (inside : List Char) :
    dictShape? inside = .ok (Expr.dictShape? inside) := by
  have cuts : (Expr.splitTopLevel ',' inside).mapM (cutTopLevel? ':') =
      .ok ((Expr.splitTopLevel ',' inside).map (Expr.cutTopLevel? ':')) :=
    mapM_ok fun item _ => cutTopLevel?_eq (by decide) item
  rw [dictShape?, splitTopLevel_eq (by decide), ok_bind, cuts, ok_bind, Expr.dictShape?,
    List.mapM_map]
  rfl

private theorem bracketShape?_unclosed (absent : enclosed? text = none) :
    Expr.bracketShape? text = none := by
  rw [Expr.bracketShape?, absent]
  split <;> first | contradiction | rfl

private theorem bracketShape?_unopened (unopened : ¬ isOpening c = true) :
    Expr.bracketShape? (c :: tail) = none := by
  rw [Expr.bracketShape?]
  split
  case h_4 => rfl
  all_goals
    next begins _ =>
      obtain rfl := Option.some.inj begins
      exact absurd rfl unopened

/-- The byte that a text begins with tells which bracket it is, if any. -/
private theorem bracketShape?_eq {first : UInt8} {others : List UInt8}
    (begins : bytes text = first :: others) :
    bracketShape? text first = .ok (Expr.bracketShape? text) := by
  rcases text with _ | ⟨c, tail⟩
  · cases begins
  obtain ⟨first', others', encoded, -⟩ := encode_leads c
  have own : first' = first := by
    rw [bytes_cons, encoded] at begins
    exact (List.cons.inj begins).1
  subst own
  rw [bracketShape?]
  by_cases opens : isOpening c = true
  · have mark := isOpening_iff.mp opens
    have ascii := openings_ascii c mark
    obtain rfl : c.toUInt8 = first' := by
      rw [encode_ascii ascii] at encoded
      exact (List.cons.inj encoded).1
    rw [(marks_ascii ascii).2.1, opens]
    rcases encloses_cases opens [] tail rfl with ⟨absent, apart⟩ | ⟨inside, found, closed, cut⟩
    · have apart : encloses (c :: tail) 0 = false := apart
      rw [apart, bracketShape?_unclosed absent]
      rfl
    · have closed : encloses (c :: tail) 0 = true := closed
      have cut : slice (c :: tail) 1 (byteLength (c :: tail) - 1) = .ok inside := cut
      rw [closed, if_pos (by decide), cut, ok_bind, Expr.bracketShape?, found]
      rw [isOpening, Bool.or_eq_true, Bool.or_eq_true, beq_iff_eq, beq_iff_eq, beq_iff_eq] at opens
      rcases opens with (rfl | rfl) | rfl
      · rw [if_neg (by decide), if_pos rfl, groupShape_eq]
        rfl
      · rw [if_pos rfl, splitTopLevel_eq (by decide)]
        rfl
      · rw [if_neg (by decide), if_neg (by decide), dictShape?_eq]
        rfl
  · have closed : among openings first' = false :=
      among_encode openings_ascii (mt isOpening_iff.mpr opens) first' (encoded ▸ List.mem_cons_self)
    rw [closed, bracketShape?_unopened opens]
    rfl

private theorem namedShape_eq (text : List Char) :
    namedShape text = .ok (Expr.namedShape text) := by
  rw [namedShape, Expr.namedShape]
  split
  · rfl
  · rw [cutCall?_eq, ok_bind]
    cases Expr.cutCall? text with
    | none => rfl
    | some cut => exact callShape_eq cut.1 cut.2

private theorem readConstant?_eq (text : List Char) :
    readConstant? text = .ok (Expr.readConstant? text) := by
  rw [readConstant?, readString?_eq, ok_bind, Expr.readConstant?]
  cases Expr.readString? text with
  | some string => rfl
  | none =>
    simp only
    split
    · rfl
    · split
      · rfl
      · split <;> rfl

/-- The shape of a text is read off its bytes without a torn cut. -/
private theorem shape_eq (text : List Char) : shape text = .ok (Expr.shape text) := by
  rw [shape, Expr.shape]
  generalize trim text = text
  rw [trimmedShape, Expr.trimmedShape]
  cases begins : bytes text with
  | nil =>
    have none : text = [] := by
      rw [← byteLength_eq_zero, ← length_bytes, begins]
      rfl
    rw [none]
    rfl
  | cons first others =>
    have some : ¬ text.isEmpty = true := by
      rw [List.isEmpty_iff]
      rintro rfl
      cases begins
    simp only [readConstant?_eq, ok_bind]
    rw [if_neg some]
    cases Expr.readConstant? text with
    | some value => rfl
    | none =>
      simp only [bracketShape?_eq begins, ok_bind]
      cases Expr.bracketShape? text with
      | some shape => rfl
      | none => exact namedShape_eq text

/-! Values. -/

/-- The value of an expression: its shape, then each part of it. -/
def read (text : List Char) : Except Torn Value :=
  match _same : shape text with
  | .error torn => .error torn
  | .ok (.atom value) => .ok value
  | .ok (.group inside) => read inside
  | .ok (.list items) => do return .list (← items.attach.mapM fun item => read item.1)
  | .ok (.tuple items) => do return .tuple (← items.attach.mapM fun item => read item.1)
  | .ok (.dict entries) => do
    return .dict (← entries.attach.mapM fun entry => do
      return (← read entry.1.1, ← read entry.1.2))
  | .ok (.call callee args named) => do
    return .call callee (← args.attach.mapM fun arg => read arg.1)
      (← named.attach.mapM fun arg => do return (arg.1.1, ← read arg.1.2))
termination_by text.length
decreasing_by
  all_goals
    apply shape_parts_length
    rw [← Except.ok.inj ((shape_eq text).symm.trans _same).symm]
    simp only [Shape.parts, List.mem_singleton, List.mem_append, List.mem_map, List.mem_flatMap]
  · exact item.2
  · exact item.2
  · exact ⟨entry.1, entry.2, by simp⟩
  · exact ⟨entry.1, entry.2, by simp⟩
  · exact .inl arg.2
  · exact .inr ⟨arg.1, arg.2, rfl⟩

/-- The value of a shape once its parts have been read. -/
def valueOf (readPart : List Char → Except Torn Value) : Shape → Except Torn Value
  | .atom value => .ok value
  | .group inside => readPart inside
  | .list items => do return .list (← items.mapM readPart)
  | .tuple items => do return .tuple (← items.mapM readPart)
  | .dict entries => do
    return .dict (← entries.mapM fun entry => do
      return (← readPart entry.1, ← readPart entry.2))
  | .call callee args named => do
    return .call callee (← args.mapM readPart)
      (← named.mapM fun arg => do return (arg.1, ← readPart arg.2))

/-- A value is put together from parts that all can be read. -/
private theorem valueOf_eq {readPart : List Char → Except Torn Value} {value : List Char → Value}
    (found : Shape) (all : ∀ part ∈ found.parts, readPart part = .ok (value part)) :
    valueOf readPart found = .ok (found.value value) := by
  cases found with
  | atom _ => rfl
  | group inside => exact all inside List.mem_cons_self
  | list items =>
    have read : items.mapM readPart = .ok (items.map value) := mapM_ok all
    rw [valueOf, read]
    rfl
  | tuple items =>
    have read : items.mapM readPart = .ok (items.map value) := mapM_ok all
    rw [valueOf, read]
    rfl
  | dict entries =>
    have pairs : ∀ entry ∈ entries, (do return (← readPart entry.1, ← readPart entry.2)) =
        (.ok (value entry.1, value entry.2) : Except Torn (Value × Value)) := by
      intro entry member
      rw [all entry.1 (List.mem_flatMap.mpr ⟨entry, member, by simp⟩),
        all entry.2 (List.mem_flatMap.mpr ⟨entry, member, by simp⟩)]
      rfl
    rw [valueOf, mapM_ok pairs]
    rfl
  | call callee args named =>
    have positional := mapM_ok fun arg member => all arg (List.mem_append_left _ member)
    have pairs : ∀ arg ∈ named, (do return (arg.1, ← readPart arg.2)) =
        (.ok (arg.1, value arg.2) : Except Torn (String × Value)) := by
      intro arg member
      rw [all arg.2 (List.mem_append_right _ (List.mem_map_of_mem member))]
      rfl
    rw [valueOf, positional, ok_bind, mapM_ok pairs]
    rfl

private theorem read_shape (text : List Char) : read text = valueOf read (Expr.shape text) := by
  rw [read]
  split <;> next same =>
    have own := (shape_eq text).symm.trans same
    first
    | cases own
    | rw [Except.ok.inj own]
      simp only [valueOf, List.mapM_subtype, List.unattach_attach]

/-- Reading from bytes makes only cuts that can be made, comes to an end, and gives the value
that reading characters gives. -/
theorem read_eq (text : List Char) : read text = .ok (Expr.read text) := by
  induction bound : text.length using Nat.strongRecOn generalizing text with
  | _ length shorter =>
    rw [read_shape, Expr.read_eq]
    exact valueOf_eq _ fun part member => shorter _ (bound ▸ shape_parts_length member) part rfl

end ApiScribe.Bytewise
