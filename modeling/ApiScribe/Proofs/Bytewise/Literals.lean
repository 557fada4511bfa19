import ApiScribe.Proofs.Bytewise.Scans
import ApiScribe.Expr.Literal

/-! String literals read from bytes. The reader looks at single bytes before and behind the
quotes and takes the body out with cuts on either side of them. -/
namespace ApiScribe.Bytewise
open Text ApiScribe.Expr

def literalLetters : List Char := ['r', 'R', 'b', 'B', 'u', 'U', 'f', 'F']

/-- How many letters stand before a quote. -/
def letterCount (data : List UInt8) : Nat :=
  ((data.take 2).takeWhile (among literalLetters)).length

/-- Whether a literal opens with three quotes and has room for three more. -/
def opensLong (data : List UInt8) (quote : UInt8) (start stop : Nat)
    (bound : stop ≤ data.length) : Bool :=
  if room : start + 6 ≤ stop then data[start + 1] == quote && data[start + 2] == quote else false

/-- Whether a literal has room for its quotes and its last byte is one. -/
def closesWith (data : List UInt8) (quote : UInt8) (start stop width : Nat)
    (bound : stop ≤ data.length) (onward : start < stop) : Bool :=
  decide (start + width + width ≤ stop) && data[stop - 1] == quote

/-- Whether a literal has three quotes on either side. -/
def isLong (text : List Char) (quote : UInt8) (start stop : Nat)
    (bound : stop ≤ (bytes text).length) : Except Torn Bool := do
  if opensLong (bytes text) quote start stop bound then
    let whole ← slice text 0 stop
    let opening ← slice text start (start + 3)
    return opening.isSuffixOf whole
  else return false

/-- What stands between the quotes of a literal, if it is closed. -/
def bodyBetween? (text : List Char) (quote : UInt8) (start stop : Nat)
    (bound : stop ≤ (bytes text).length) (onward : start < stop) :
    Except Torn (Option (List Char)) := do
  let width := if ← isLong text quote start stop bound then 3 else 1
  if closesWith (bytes text) quote start stop width bound onward then
    return some (← slice text (start + width) (stop - width))
  else return none

/-- The value of the literal whose quote stands at `start`, and the byte at which it ends. -/
def readLiteralAt? (text : List Char) (start : Nat) : Except Torn (Option (List Char × Nat)) := do
  if inside : start < (bytes text).length then
    let quote := (bytes text)[start]
    if among quotes quote then
      let letters ← slice text 0 start
      let stop := skipString (bytes text) start inside
      let body? ← bodyBetween? text quote start stop (skipString_le inside) (lt_skipString inside)
      return body?.map fun body =>
        (if letters.any fun c => c == 'r' || c == 'R' then body else unescape body, stop)
    else return none
  else return none

/-- The value of the literal that a text begins with, and the byte at which it ends. -/
def readLiteral? (text : List Char) : Except Torn (Option (List Char × Nat)) :=
  readLiteralAt? text (letterCount (bytes text))

variable {c quote : Char} {text front rest inside after literal : List Char} {data : List UInt8}
  {i stop : Nat}

private theorem isLiteralLetter_iff : isLiteralLetter c = true ↔ c ∈ literalLetters := by
  simp [isLiteralLetter, literalLetters]

private theorem literalLetters_ascii : ∀ a ∈ literalLetters, a.toNat < 128 := by
  simp [literalLetters]

/-- The letters of a text are letters of its bytes. -/
theorem letterCount_eq (text : List Char) :
    letterCount (bytes text) = byteLength ((text.take 2).takeWhile isLiteralLetter) := by
  have counted (count : Nat) (text : List Char) :
      (((bytes text).take count).takeWhile (among literalLetters)).length =
        byteLength ((text.take count).takeWhile isLiteralLetter) := by
    induction text generalizing count with
    | nil => simp
    | cons c rest ih =>
      cases count with
      | zero => rfl
      | succ count =>
        by_cases letter : isLiteralLetter c = true
        · have mark := isLiteralLetter_iff.mp letter
          have ascii := literalLetters_ascii c mark
          have found := (among_iff literalLetters_ascii ascii).mpr mark
          have size := utf8Size_ascii ascii
          rw [bytes_cons, encode_ascii ascii, List.singleton_append, List.take_succ_cons,
            List.take_succ_cons, List.takeWhile_cons_of_pos found,
            List.takeWhile_cons_of_pos letter, List.length_cons, byteLength_cons, ih, size, Nat.add_comm]
        · obtain ⟨first, others, encoded, -⟩ := encode_leads c
          have missed : among literalLetters first = false :=
            among_encode literalLetters_ascii (mt isLiteralLetter_iff.mpr letter) first
              (encoded ▸ List.mem_cons_self)
          rw [bytes_cons, encoded, List.cons_append, List.take_succ_cons, List.take_succ_cons,
            List.takeWhile_cons_of_neg (by simp [missed]), List.takeWhile_cons_of_neg letter]
          rfl
  exact counted 2 text

private theorem opensLong_iff {byte : UInt8} {tail : List UInt8} (place : At data i (byte :: tail))
    (bound : stop ≤ data.length) :
    opensLong data byte i stop bound = true ↔ i + 6 ≤ stop ∧ tail.take 2 = [byte, byte] := by
  obtain ⟨front, rfl, rfl⟩ := place
  unfold opensLong
  split
  · next room =>
    rcases tail with _ | ⟨second, _ | ⟨third, more⟩⟩
    · simp at bound
      omega
    · simp at bound
      omega
    · simp [room]
  · next short => simp [short]

/-- A literal that has three quotes on either side and is shorter than six characters has
nothing but quotes, which take a byte each. -/
theorem six_le_byteLength (ascii : quote.toNat < 128) (opens : [quote, quote, quote] <+: literal)
    (closes : [quote, quote, quote] <:+ literal) :
    6 ≤ byteLength literal ↔ 6 ≤ literal.length := by
  refine ⟨fun long => ?_, fun long => Nat.le_trans long (length_le_byteLength literal)⟩
  by_contra short
  obtain ⟨back, rfl⟩ := opens
  have within : back <:+ [quote, quote, quote] := by
    refine List.suffix_of_suffix_length_le (List.suffix_append _ _) closes ?_
    rw [List.length_append] at short
    simp only [List.length_cons, List.length_nil] at short ⊢
    omega
  have quoted : ∀ c ∈ [quote, quote, quote] ++ back, c.toNat < 128 := by
    intro c member
    have same : c = quote := by simpa using (List.mem_append.mp member).elim id within.mem
    rwa [same]
  rw [byteLength_ascii quoted] at long
  exact short long

/-- A literal with three quotes of one kind on either side. -/
def Long (quote : Char) (literal : List Char) : Prop :=
  6 ≤ literal.length ∧ [quote, quote, quote] <+: literal ∧ [quote, quote, quote] <:+ literal

instance (quote : Char) (literal : List Char) : Decidable (Long quote literal) :=
  inferInstanceAs (Decidable (_ ∧ _))

/-- The test for three quotes, made on bytes, is the one on characters. -/
private theorem isLong_eq (quoted : isQuote quote = true) (front inside after : List Char)
    (whole : text = front ++ (quote :: inside ++ after))
    (last : stop = byteLength front + byteLength (quote :: inside))
    (bound : stop ≤ (bytes text).length) :
    isLong text quote.toUInt8 (byteLength front) stop bound =
      .ok (decide (Long quote (quote :: inside))) := by
  have ascii := ascii_of_isQuote quoted
  have size := utf8Size_ascii ascii
  have place : At (bytes text) (byteLength front) (quote.toUInt8 :: bytes (inside ++ after)) := by
    refine ⟨bytes front, ?_, length_bytes front⟩
    rw [whole, bytes_append, List.cons_append, bytes_cons, encode_ascii ascii]
    rfl
  have opens := opensLong_iff place bound
  rw [take_bytes ascii] at opens
  rw [isLong]
  by_cases long : opensLong (bytes text) quote.toUInt8 (byteLength front) stop bound = true
  · obtain ⟨room, doubled⟩ := opens.mp long
    obtain ⟨more, rfl⟩ : ∃ more, inside = quote :: quote :: more := by
      rw [last, byteLength_cons, size] at room
      rcases inside with _ | ⟨d, _ | ⟨e, more⟩⟩
      · simp at room
      · have narrow := d.utf8Size_le_four
        simp at room
        omega
      · obtain ⟨rfl, rfl⟩ : d = quote ∧ e = quote := by simpa using doubled
        exact ⟨more, rfl⟩
    have upTo : slice text 0 stop = .ok (front ++ quote :: quote :: quote :: more) :=
      slice_of [] _ after (by simp [whole]) rfl (by simp [last])
    have opening : slice text (byteLength front) (byteLength front + 3) =
        .ok [quote, quote, quote] :=
      slice_of front _ (more ++ after) (by simp [whole]) rfl (by simp [size])
    have begins : [quote, quote, quote] <+: quote :: quote :: quote :: more := ⟨more, rfl⟩
    rw [if_pos long, upTo, opening]
    refine congrArg Except.ok (Bool.eq_iff_iff.mpr ?_)
    rw [decide_eq_true_iff, List.isSuffixOf_iff_suffix]
    constructor
    · intro closes
      have ends := List.suffix_of_suffix_length_le closes (List.suffix_append front _) (by simp)
      exact ⟨(six_le_byteLength ascii begins ends).mp (by omega), begins, ends⟩
    · exact fun ⟨_, _, ends⟩ => ends.trans (List.suffix_append front _)
  · rw [if_neg long]
    refine congrArg Except.ok (Eq.symm (decide_eq_false fun ⟨six, begins, ends⟩ => long ?_))
    have room := (six_le_byteLength ascii begins ends).mpr six
    obtain ⟨more, same⟩ := begins
    obtain ⟨-, rfl⟩ := List.cons.inj same
    exact opens.mpr ⟨by omega, rfl⟩

/-- The byte before the end of a literal is a quote if its last character is one. -/
theorem closesWith_iff (width : Nat) (quoted : isQuote quote = true)
    (front inside after : List Char)
    (whole : text = front ++ (quote :: inside ++ after))
    (last : stop = byteLength front + byteLength (quote :: inside))
    (bound : stop ≤ (bytes text).length) (onward : byteLength front < stop) :
    closesWith (bytes text) quote.toUInt8 (byteLength front) stop width bound onward = true ↔
      2 * width ≤ byteLength (quote :: inside) ∧
        (quote :: inside).getLast? = some quote := by
  have ascii := ascii_of_isQuote quoted
  have before := byte_before (front ++ quote :: inside) after (by simp)
  rw [List.append_assoc, ← whole, byteLength_append, ← last] at before
  have ends : (bytes text)[stop - 1] = quote.toUInt8 ↔
      (quote :: inside).getLast? = some quote := by
    have inner : (front ++ quote :: inside).getLast? = (quote :: inside).getLast? :=
      List.getLast?_append_of_ne_nil front (List.cons_ne_nil _ _)
    rw [← inner, ← getLast_bytes ascii, ← before, List.getElem?_eq_getElem (by omega),
      Option.some.injEq]
  rw [closesWith, Bool.and_eq_true, decide_eq_true_iff, beq_iff_eq, ends]
  exact and_congr_left fun _ => by omega

/-- Quotes of some number around a body. -/
theorem exists_body {quotes : List Char} (opens : quotes <+: literal) (closes : quotes <:+ literal)
    (room : quotes.length + quotes.length ≤ literal.length) :
    ∃ body, literal = quotes ++ (body ++ quotes) ∧
      (literal.drop quotes.length).take (literal.length - (quotes.length + quotes.length)) =
        body := by
  obtain ⟨back, rfl⟩ := opens
  rw [List.length_append] at room
  have ends := List.suffix_of_suffix_length_le closes (List.suffix_append quotes back) (by omega)
  obtain ⟨body, rfl⟩ := ends
  refine ⟨body, rfl, ?_⟩
  rw [List.drop_left, List.length_append, List.length_append]
  exact List.take_left' (by omega)

/-- What stands between quotes is a slice. -/
theorem slice_body (front quotes body after : List Char)
    (whole : text = front ++ (quotes ++ (body ++ quotes) ++ after))
    (last : stop = byteLength front + byteLength (quotes ++ (body ++ quotes))) :
    slice text (byteLength front + byteLength quotes) (stop - byteLength quotes) = .ok body := by
  refine slice_of (front ++ quotes) body (quotes ++ after) ?_ ?_ ?_
  · simp [whole]
  · simp
  · simp only [last, byteLength_append]
    omega

private theorem literalBody?_long (long : Long quote literal) :
    ∃ body, literal = [quote, quote, quote] ++ (body ++ [quote, quote, quote]) ∧
      literalBody? quote literal = some body := by
  obtain ⟨six, opens, closes⟩ := long
  obtain ⟨body, whole, inner⟩ := exists_body opens closes six
  refine ⟨body, whole, ?_⟩
  rw [literalBody?, if_pos]
  · exact congrArg some inner
  · simp [six, opens, closes]

private theorem literalBody?_short (short : ¬ Long quote literal) :
    literalBody? quote literal = if 2 ≤ literal.length ∧ literal.getLast? = some quote then
      some ((literal.drop 1).take (literal.length - 2)) else none := by
  rw [literalBody?, if_neg]
  · simp
  · simpa [Long] using short

/-- The quotes are cut off without a torn character, as each is one byte. -/
private theorem bodyBetween?_eq (quoted : isQuote quote = true) (front inside after : List Char)
    (whole : text = front ++ (quote :: inside ++ after))
    (last : stop = byteLength front + byteLength (quote :: inside))
    (bound : stop ≤ (bytes text).length) (onward : byteLength front < stop) :
    bodyBetween? text quote.toUInt8 (byteLength front) stop bound onward =
      .ok (literalBody? quote (quote :: inside)) := by
  have size := utf8Size_ascii (ascii_of_isQuote quoted)
  have closes (width : Nat) :=
    closesWith_iff width quoted front inside after whole last bound onward
  rw [bodyBetween?, isLong_eq quoted front inside after whole last bound]
  by_cases long : Long quote (quote :: inside)
  · obtain ⟨body, parts, read⟩ := literalBody?_long long
    have room := Nat.le_trans long.1 (length_le_byteLength (quote :: inside))
    have ends : (quote :: inside).getLast? = some quote := by
      rw [parts, ← List.append_assoc, List.getLast?_append_of_ne_nil _ (List.cons_ne_nil _ _)]
      rfl
    have cut : slice text (byteLength front + 3) (stop - 3) = .ok body := by
      rw [parts] at whole last
      have cut := slice_body front [quote, quote, quote] body after whole last
      simpa [size] using cut
    rw [decide_eq_true long, read]
    change (if closesWith _ _ _ _ 3 bound onward then _ else _) = _
    rw [if_pos ((closes 3).mpr ⟨room, ends⟩)]
    change (do return some (← slice text (byteLength front + 3) (stop - 3))) = _
    rw [cut]
    rfl
  · rw [literalBody?_short long, decide_eq_false long]
    change (if closesWith _ _ _ _ 1 bound onward then _ else _) = _
    have same : 2 ≤ byteLength (quote :: inside) ↔ 2 ≤ (quote :: inside).length := by
      cases inside with
      | nil => simp [size]
      | cons d more =>
        have room := length_le_byteLength (quote :: d :: more)
        simp only [List.length_cons] at room ⊢
        omega
    have closed := closes 1
    rw [Nat.mul_one, same] at closed
    by_cases both : 2 ≤ (quote :: inside).length ∧ (quote :: inside).getLast? = some quote
    · obtain ⟨front', ends⟩ := List.getLast?_eq_some_iff.mp both.2
      have begins : [quote] <+: quote :: inside := ⟨inside, rfl⟩
      obtain ⟨body, parts, inner⟩ := exists_body begins ⟨front', ends.symm⟩ both.1
      have cut : slice text (byteLength front + 1) (stop - 1) = .ok body := by
        rw [parts] at whole last
        have cut := slice_body front [quote] body after whole last
        simpa [size] using cut
      rw [if_pos (closed.mpr both), if_pos both]
      change (do return some (← slice text (byteLength front + 1) (stop - 1))) = _
      rw [cut, ← inner]
      rfl
    · rw [if_neg (mt closed.mp both), if_neg both]
      rfl

/-- A literal is read at its quote, behind any letters. -/
private theorem readLiteralAt?_quote (quoted : isQuote quote = true) (letters tail : List Char)
    (whole : text = letters ++ quote :: tail) :
    readLiteralAt? text (byteLength letters) =
      .ok ((literalBody? quote (quote :: (literalTail quote tail).1)).map fun body =>
        (if letters.any fun c => c == 'r' || c == 'R' then body else unescape body,
          byteLength (letters ++ quote :: (literalTail quote tail).1))) := by
  have ascii := ascii_of_isQuote quoted
  have place : At (bytes text) (byteLength letters) (bytes (quote :: tail)) :=
    ⟨bytes letters, by rw [whole, bytes_append], length_bytes letters⟩
  obtain ⟨inside, here, -⟩ := place.ascii ascii
  have mark : among quotes quote.toUInt8 = true := by rw [(marks_ascii ascii).1, quoted]
  have stop := skipString_eq quoted place inside
  have parts : text =
      letters ++ (quote :: (literalTail quote tail).1 ++ (literalTail quote tail).2) := by
    rw [whole, List.cons_append, literalTail_append]
  have before : slice text 0 (byteLength letters) = .ok letters := by
    rw [whole]
    exact slice_front letters _
  have body := bodyBetween?_eq quoted letters _ _ parts stop (skipString_le inside)
    (lt_skipString inside)
  rw [readLiteralAt?, dif_pos inside]
  simp only [here, mark, if_true, before, body]
  rw [byteLength_append, ← stop]
  rfl

private theorem readLiteralAt?_other (unquoted : isQuote c = false) (letters tail : List Char)
    (whole : text = letters ++ c :: tail) :
    readLiteralAt? text (byteLength letters) = .ok none := by
  obtain ⟨first, others, encoded, -⟩ := encode_leads c
  have place : At (bytes text) (byteLength letters) (first :: (others ++ bytes tail)) := by
    refine ⟨bytes letters, ?_, length_bytes letters⟩
    rw [whole, bytes_append, bytes_cons, encoded]
    rfl
  have missed : among quotes first = false := by
    rw [← Bool.not_eq_true, isQuote_iff] at unquoted
    exact among_encode quotes_ascii unquoted first (encoded ▸ List.mem_cons_self)
  obtain ⟨inside, here, -⟩ := place.cons
  rw [readLiteralAt?, dif_pos inside]
  simp only [here, missed, Bool.false_eq_true, if_false]
  rfl

/-- Reading a literal from bytes gives what reading it from characters does, and the byte at
which the text behind it begins. -/
theorem readLiteral?_cases (text : List Char) :
    (Expr.readLiteral? text = none ∧ readLiteral? text = .ok none) ∨
      ∃ value literal rest, text = literal ++ rest ∧
        Expr.readLiteral? text = some (value, rest) ∧
        readLiteral? text = .ok (some (value, byteLength literal)) := by
  rw [readLiteral?, letterCount_eq, Expr.readLiteral?]
  obtain ⟨tail, parts⟩ : (text.take 2).takeWhile isLiteralLetter <+: text :=
    (List.takeWhile_prefix _).trans (List.take_prefix 2 text)
  generalize (text.take 2).takeWhile isLiteralLetter = letters at parts ⊢
  have behind : text.drop letters.length = tail := by rw [← parts, List.drop_left]
  simp only [behind]
  rcases tail with _ | ⟨quote, tail⟩
  · left
    have outside : ¬ byteLength letters < (bytes text).length := by
      rw [length_bytes, ← parts, List.append_nil]
      exact Nat.lt_irrefl _
    rw [readLiteralAt?, dif_neg outside]
    exact ⟨rfl, rfl⟩
  · by_cases quoted : isQuote quote = true
    · rw [readLiteralAt?_quote quoted letters tail parts.symm]
      simp only [quoted, if_true]
      cases literalBody? quote (quote :: (literalTail quote tail).1) with
      | none => exact .inl ⟨rfl, rfl⟩
      | some body =>
        refine .inr ⟨_, letters ++ quote :: (literalTail quote tail).1, _, ?_, rfl, rfl⟩
        rw [← parts, List.append_assoc, List.cons_append, literalTail_append]
    · rw [readLiteralAt?_other (by simpa using quoted) letters tail parts.symm]
      exact .inl ⟨by simp [quoted], rfl⟩

private theorem readLiteral?_moves {value : List Char}
    (read : readLiteral? text = .ok (some (value, stop))) : 0 < stop := by
  rcases readLiteral?_cases text with ⟨-, none⟩ | ⟨value, literal, rest, rfl, parsed, found⟩
  · rw [none] at read
    cases read
  · rw [found] at read
    cases read
    have shorter := readLiteral?_length parsed
    have long := length_le_byteLength literal
    rw [List.length_append] at shorter
    omega

/-- Reads literals up to the end of a text that begins with no blank. -/
def readLiterals? (text : List Char) : Except Torn (Option (List Char)) :=
  if text.isEmpty then .ok (some [])
  else match _read : readLiteral? text with
    | .error torn => .error torn
    | .ok none => .ok none
    | .ok (some (value, stop)) =>
      match _cut : slice text stop (byteLength text) with
      | .error torn => .error torn
      | .ok rest => (readLiterals? (trimStart rest)).map (Option.map (value ++ ·))
termination_by text.length
decreasing_by
  have shorter := slice_shorter _cut (readLiteral?_moves _read)
  have trimmed := trimStart_length_le rest
  omega

/-- The string that a text of literals denotes. -/
def readString? (text : List Char) : Except Torn (Option (List Char)) :=
  match trim text with
  | [] => .ok none
  | c :: rest => readLiterals? (c :: rest)

private theorem readLiterals?_none (some : ¬ text.isEmpty = true)
    (read : readLiteral? text = .ok none) :
    readLiterals? text = .ok none := by
  rw [readLiterals?, if_neg some]
  split
  · next torn bad => exact absurd (read.symm.trans bad) nofun
  · rfl
  · next value stop good => exact absurd (read.symm.trans good) nofun

/-- Behind a literal the reader goes on with the text that is left. -/
private theorem readLiterals?_cons {value : List Char} (some : ¬ text.isEmpty = true)
    (read : readLiteral? text = .ok (.some (value, stop)))
    (cut : slice text stop (byteLength text) = .ok rest) :
    readLiterals? text = (readLiterals? (trimStart rest)).map (Option.map (value ++ ·)) := by
  rw [readLiterals?, if_neg some]
  split
  · next torn bad => exact absurd (read.symm.trans bad) nofun
  · next none => exact absurd (read.symm.trans none) nofun
  · next value' stop' good =>
    cases read.symm.trans good
    split
    · next torn bad => exact absurd (cut.symm.trans bad) nofun
    · next rest' good =>
      cases cut.symm.trans good
      rfl

private theorem readLiterals?_eq (text : List Char) :
    readLiterals? text = .ok (Expr.readLiterals? text) := by
  fun_induction Expr.readLiterals? text with
  | case1 text none => rw [readLiterals?, if_pos none]
  | case2 text some absent =>
    rcases readLiteral?_cases text with ⟨-, none⟩ | ⟨value, literal, rest, -, parsed, -⟩
    · exact readLiterals?_none some none
    · exact absurd (absent.symm.trans parsed) nofun
  | case3 text some value after read ih =>
    rcases readLiteral?_cases text with ⟨none, -⟩ | ⟨value', literal, rest, rfl, parsed, found⟩
    · exact absurd (none.symm.trans read) nofun
    · cases read.symm.trans parsed
      rw [readLiterals?_cons some found (slice_back literal after), ih]
      rfl

theorem readString?_eq (text : List Char) : readString? text = .ok (Expr.readString? text) := by
  rw [readString?, Expr.readString?]
  cases trim text with
  | nil => rfl
  | cons c rest => exact readLiterals?_eq (c :: rest)

end ApiScribe.Bytewise
