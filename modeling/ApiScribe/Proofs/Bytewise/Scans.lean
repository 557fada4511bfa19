import ApiScribe.Proofs.Bytewise.Cuts
import ApiScribe.Proofs.Expr.Scanning

/-! Scans over bytes. A backslash in a literal protects the byte behind it, which may be the
first one of several that a character takes. The others are no marks of any kind, so that
the scan is back at a boundary when it comes to the next character. -/
namespace ApiScribe.Bytewise
open Text ApiScribe.Expr

/-- Whether a byte is one of some characters of ASCII. -/
def among (marks : List Char) (byte : UInt8) : Bool := marks.any fun a => byte == a.toUInt8

def quotes : List Char := ['\'', '"']

def openings : List Char := ['(', '[', '\x7b']

def closings : List Char := [')', ']', '\x7d']

/-- Whether the two items behind the one at `i` are quotes. -/
def doubledAt {α : Type} [BEq α] (data : List α) (quote : α) (i : Nat) : Bool :=
  if room : i + 3 ≤ data.length then data[i + 1] == quote && data[i + 2] == quote else false

/-- Where the literal ends in which the byte at `i` stands. -/
def skipInside (data : List UInt8) (quote : UInt8) (triple : Bool) (i : Nat) : Nat :=
  if inside : i < data.length then
    if data[i] = '\\'.toUInt8 then skipInside data quote triple (i + 2)
    else if data[i] = quote then
      if triple = false then i + 1
      else if doubledAt data quote i then i + 3
      else skipInside data quote triple (i + 1)
    else if data[i] = '\n'.toUInt8 ∧ triple = false then i
    else skipInside data quote triple (i + 1)
  else data.length
termination_by data.length - i

/-- Where the literal ends that begins with the quote at `start`. -/
def skipString (data : List UInt8) (start : Nat) (inside : start < data.length) : Nat :=
  let quote := data[start]
  let triple := doubledAt data quote start
  skipInside data quote triple (if triple then start + 3 else start + 1)

/-- `tail` is what stands in `data` from the index `i` on. -/
def At {α : Type} (data : List α) (i : Nat) (tail : List α) : Prop :=
  ∃ front, data = front ++ tail ∧ front.length = i

variable {a c quote target : Char} {text rest : List Char} {data front tail : List UInt8}
  {byte : UInt8} {marks : List Char} {i depth : Nat} {triple : Bool}

private theorem doubledAt_room (doubled : doubledAt data byte i = true) : i + 3 ≤ data.length := by
  unfold doubledAt at doubled
  split at doubled
  · assumption
  · cases doubled

private theorem skipInside_le (data : List UInt8) (quote : UInt8) (triple : Bool) (i : Nat) :
    skipInside data quote triple i ≤ data.length := by
  fun_induction skipInside data quote triple i with
  | case1 i inside slash ih => exact ih
  | case2 i inside solid closes single => exact inside
  | case3 i inside solid closes several doubled => exact doubledAt_room doubled
  | case4 i inside solid closes several apart ih => exact ih
  | case5 i inside solid other feed => exact Nat.le_of_lt inside
  | case6 i inside solid other goes ih => exact ih
  | case7 i outside => exact Nat.le_refl _

private theorem le_skipInside (data : List UInt8) (quote : UInt8) (triple : Bool) (i : Nat) :
    min i data.length ≤ skipInside data quote triple i := by
  fun_induction skipInside data quote triple i with
  | case1 i inside slash ih => omega
  | case2 i inside solid closes single => omega
  | case3 i inside solid closes several doubled => omega
  | case4 i inside solid closes several apart ih => omega
  | case5 i inside solid other feed => omega
  | case6 i inside solid other goes ih => omega
  | case7 i outside => omega

/-- A literal ends within the text. -/
theorem skipString_le (inside : i < data.length) : skipString data i inside ≤ data.length :=
  skipInside_le ..

/-- A literal takes up at least its quote, so scans come to an end. -/
theorem lt_skipString (inside : i < data.length) : i < skipString data i inside := by
  have onward : i < min (if doubledAt data data[i] i then i + 3 else i + 1) data.length := by
    split <;> omega
  exact Nat.lt_of_lt_of_le onward (le_skipInside ..)

/-- The bracket that brings the depth back to nothing. -/
def closeIndex? (data : List UInt8) (depth i : Nat) : Option Nat :=
  if inside : i < data.length then
    if among quotes data[i] then closeIndex? data depth (skipString data i inside)
    else if among openings data[i] then closeIndex? data (depth + 1) (i + 1)
    else if among closings data[i] then
      if depth = 0 then none
      else if depth = 1 then some i
      else closeIndex? data (depth - 1) (i + 1)
    else closeIndex? data depth (i + 1)
  else none
termination_by data.length - i
decreasing_by
  all_goals try omega
  have onward := lt_skipString inside
  omega

/-- The first `target` outside of brackets and literals. -/
def findIndex? (data : List UInt8) (target : UInt8) (depth i : Nat) : Option Nat :=
  if inside : i < data.length then
    if among quotes data[i] then findIndex? data target depth (skipString data i inside)
    else if data[i] = target ∧ depth = 0 then some i
    else if among openings data[i] then findIndex? data target (depth + 1) (i + 1)
    else if among closings data[i] then findIndex? data target (depth - 1) (i + 1)
    else findIndex? data target depth (i + 1)
  else none
termination_by data.length - i
decreasing_by
  all_goals try omega
  have onward := lt_skipString inside
  omega

/-! Places. -/

section
variable {α : Type} {items front tail : List α} {item : α}

private theorem At.start (items : List α) : At items 0 items := ⟨[], rfl, rfl⟩

private theorem At.nil (place : At items i []) : i = items.length := by
  obtain ⟨front, rfl, rfl⟩ := place
  rw [List.append_nil]

/-- The first of the remaining items is the one at the index, and the others follow it. -/
theorem At.cons (place : At items i (item :: tail)) :
    ∃ inside : i < items.length, items[i] = item ∧ At items (i + 1) tail := by
  obtain ⟨front, rfl, rfl⟩ := place
  refine ⟨by simp, by simp, front ++ [item], by simp, by simp⟩

private theorem At.append (place : At items i (front ++ tail)) :
    At items (i + front.length) tail := by
  obtain ⟨before, rfl, rfl⟩ := place
  exact ⟨before ++ front, (List.append_assoc ..).symm, List.length_append⟩

/-- A scan that passes each item of some kind passes all of them in a row. -/
theorem At.pass {β : Type} {scan : Nat → β} {Passed : α → Prop}
    (step : ∀ {i item tail}, At items i (item :: tail) → Passed item → scan i = scan (i + 1))
    (place : At items i (front ++ tail)) (all : ∀ item ∈ front, Passed item) :
    scan i = scan (i + front.length) := by
  induction front generalizing i with
  | nil => rfl
  | cons item others ih =>
    obtain ⟨-, -, behind⟩ := place.cons
    have later := ih behind fun item member => all item (List.mem_cons_of_mem _ member)
    rw [step place (all item List.mem_cons_self), later, List.length_cons, Nat.add_assoc,
      Nat.add_comm 1]

/-- The look ahead for two more quotes sees what comes next. -/
theorem doubledAt_iff [BEq α] [LawfulBEq α] (place : At items i (item :: tail)) :
    doubledAt items item i = true ↔ tail.take 2 = [item, item] := by
  obtain ⟨front, rfl, rfl⟩ := place
  rcases tail with _ | ⟨second, _ | ⟨third, more⟩⟩
  · simp [doubledAt]
  · simp [doubledAt]
  · simp [doubledAt]

end

/-- At a character of ASCII the scan sees this character as one byte. -/
theorem At.ascii (ascii : a.toNat < 128) (place : At data i (bytes (a :: rest))) :
    ∃ inside : i < data.length, data[i] = a.toUInt8 ∧ At data (i + 1) (bytes rest) := by
  rw [bytes_cons, encode_ascii ascii] at place
  exact place.cons

private theorem At.char (place : At data i (bytes (c :: rest))) :
    At data (i + c.utf8Size) (bytes rest) := by
  rw [← String.length_utf8EncodeChar]
  exact place.append

private theorem At.chars (text : List Char) (place : At data i (bytes (text ++ rest))) :
    At data (i + byteLength text) (bytes rest) := by
  rw [bytes_append] at place
  rw [← length_bytes]
  exact place.append

/-! Marks. -/

/-- No byte of a character is taken for a mark of ASCII that the character is not. -/
theorem among_encode (ascii : ∀ a ∈ marks, a.toNat < 128) (other : c ∉ marks) :
    ∀ byte ∈ String.utf8EncodeChar c, among marks byte = false := by
  intro byte member
  rw [among, List.any_eq_false]
  intro a mark same
  have apart : c ≠ a := fun same => other (same ▸ mark)
  exact encode_other (ascii a mark) apart byte member (eq_of_beq same)

/-- For a character of ASCII the byte is a mark exactly if the character is. -/
theorem among_iff (all : ∀ a ∈ marks, a.toNat < 128) (ascii : c.toNat < 128) :
    among marks c.toUInt8 = true ↔ c ∈ marks := by
  constructor
  · intro found
    by_contra other
    rw [among_encode all other c.toUInt8 (by simp [encode_ascii ascii])] at found
    cases found
  · exact fun mark => List.any_eq_true.mpr ⟨c, mark, beq_self_eq_true _⟩

private theorem toUInt8_inj (ascii : a.toNat < 128) (ascii' : c.toNat < 128) :
    c.toUInt8 = a.toUInt8 ↔ c = a := by
  refine ⟨fun same => ?_, congrArg Char.toUInt8⟩
  by_contra other
  exact encode_other ascii other c.toUInt8 (by simp [encode_ascii ascii']) same

private theorem bytes_eq_cons (ascii : a.toNat < 128) :
    bytes text = a.toUInt8 :: tail ↔ ∃ rest, text = a :: rest ∧ tail = bytes rest := by
  constructor
  · intro same
    rcases text with _ | ⟨c, rest⟩
    · cases same
    · by_cases own : c = a
      · subst own
        rw [bytes_cons, encode_ascii ascii] at same
        exact ⟨rest, rfl, (List.cons.inj same).2.symm⟩
      · obtain ⟨first, others, encoded, -⟩ := encode_leads c
        rw [bytes_cons, encoded] at same
        have apart := encode_other ascii own first (encoded ▸ List.mem_cons_self)
        exact absurd (List.cons.inj same).1 apart
  · rintro ⟨rest, rfl, rfl⟩
    rw [bytes_cons, encode_ascii ascii]
    rfl

/-- Three quotes in a row are seen in the bytes where they are in the text. -/
theorem take_bytes (ascii : quote.toNat < 128) :
    (bytes text).take 2 = [quote.toUInt8, quote.toUInt8] ↔ text.take 2 = [quote, quote] := by
  constructor
  · intro doubled
    have whole := List.take_append_drop 2 (bytes text)
    rw [doubled] at whole
    obtain ⟨rest, rfl, behind⟩ := (bytes_eq_cons ascii).mp whole.symm
    obtain ⟨more, rfl, -⟩ := (bytes_eq_cons ascii).mp behind.symm
    rfl
  · intro doubled
    have whole := List.take_append_drop 2 text
    rw [doubled] at whole
    rw [← whole, bytes_append, bytes_cons, bytes_cons, encode_ascii ascii]
    rfl

/-! Literals. -/

theorem ascii_of_isQuote (quoted : isQuote quote = true) : quote.toNat < 128 := by
  rw [isQuote, Bool.or_eq_true, beq_iff_eq, beq_iff_eq] at quoted
  rcases quoted with rfl | rfl <;> decide

/-- A byte that a literal in these quotes goes on with and that protects no other. -/
structure Dull (quote : Char) (triple : Bool) (byte : UInt8) : Prop where
  solid : byte ≠ '\\'.toUInt8
  inner : byte ≠ quote.toUInt8
  goes : triple = false → byte ≠ '\n'.toUInt8

private theorem dull_char (quoted : isQuote quote = true) (solid : c ≠ '\\') (inner : c ≠ quote)
    (goes : triple = false → c ≠ '\n') :
    ∀ byte ∈ String.utf8EncodeChar c, Dull quote triple byte := fun byte member =>
  ⟨encode_other (by decide) solid byte member,
    encode_other (ascii_of_isQuote quoted) inner byte member,
    fun single => encode_other (by decide) (goes single) byte member⟩

/-- The bytes of a character behind its first are dull, whatever the character is. -/
theorem dull_of_not_leads (quoted : isQuote quote = true) (follows : ¬ Leads byte) :
    Dull quote triple byte := by
  have apart {a : Char} (ascii : a.toNat < 128) : byte ≠ a.toUInt8 := by
    rintro rfl
    rw [Leads, toNat_toUInt8 ascii] at follows
    exact follows (.inl ascii)
  exact ⟨apart (by decide), apart (ascii_of_isQuote quoted), fun _ => apart (by decide)⟩

private theorem skipInside_dull (place : At data i (front ++ tail))
    (dull : ∀ byte ∈ front, Dull quote triple byte) :
    skipInside data quote.toUInt8 triple i =
      skipInside data quote.toUInt8 triple (i + front.length) := by
  refine place.pass (fun place dull => ?_) dull
  obtain ⟨inside, here, -⟩ := place.cons
  obtain ⟨solid, inner, goes⟩ := dull
  rw [skipInside, dif_pos inside, here, if_neg solid, if_neg inner,
    if_neg fun feed => goes feed.2 feed.1]

private theorem skipInside_char (quoted : isQuote quote = true)
    (place : At data i (bytes (c :: rest))) (solid : c ≠ '\\') (inner : c ≠ quote)
    (goes : triple = false → c ≠ '\n') :
    skipInside data quote.toUInt8 triple i =
      skipInside data quote.toUInt8 triple (i + c.utf8Size) := by
  rw [← String.length_utf8EncodeChar]
  exact skipInside_dull place (dull_char quoted solid inner goes)

/-- A protected character is passed over as a whole. The scan may come down between its bytes
and goes on through the dull ones that are left. -/
theorem skipInside_escaped (quoted : isQuote quote = true)
    (place : At data i (bytes ('\\' :: c :: rest))) :
    skipInside data quote.toUInt8 triple i =
      skipInside data quote.toUInt8 triple (i + byteLength ['\\', c]) := by
  obtain ⟨inside, here, behind⟩ := place.ascii (by decide)
  obtain ⟨first, others, encoded, -, follow⟩ := encode_leads c
  have size : byteLength ['\\', c] = 2 + others.length := by
    have whole := String.length_utf8EncodeChar c
    rw [encoded, List.length_cons] at whole
    rw [byteLength_cons, byteLength_cons, byteLength_nil, utf8Size_ascii (by decide)]
    omega
  rw [bytes_cons, encoded] at behind
  obtain ⟨-, -, torn⟩ := behind.cons
  rw [skipInside, dif_pos inside, here, if_pos rfl, size, ← Nat.add_assoc]
  exact skipInside_dull torn fun byte member => dull_of_not_leads quoted (follow byte member)

private theorem skipInside_end (place : At data i []) : skipInside data byte triple i = i := by
  have last := place.nil
  rw [skipInside, dif_neg (by omega), last]

/-- A backslash at the very end protects nothing. -/
theorem skipInside_backslash (place : At data i (bytes ['\\'])) :
    skipInside data byte triple i = i + 1 := by
  obtain ⟨inside, here, behind⟩ := place.ascii (by decide)
  have last := behind.nil
  rw [skipInside, dif_pos inside, here, if_pos rfl, skipInside, dif_neg (by omega), last]

private theorem skipInside_quote (quoted : isQuote quote = true)
    (place : At data i (bytes (quote :: rest))) :
    skipInside data quote.toUInt8 triple i =
      if triple = false then i + 1
      else if rest.take 2 = [quote, quote] then i + 3
      else skipInside data quote.toUInt8 triple (i + 1) := by
  have ascii := ascii_of_isQuote quoted
  obtain ⟨inside, here, behind⟩ := place.ascii ascii
  have solid : quote.toUInt8 ≠ '\\'.toUInt8 := by
    have apart := encode_other (by decide) (quote_ne quoted).2.2 quote.toUInt8
    rw [encode_ascii ascii] at apart
    exact apart List.mem_cons_self
  have doubled : doubledAt data quote.toUInt8 i = true ↔ rest.take 2 = [quote, quote] := by
    rw [bytes_cons, encode_ascii ascii] at place
    rw [doubledAt_iff place, ← take_bytes ascii]
    rfl
  rw [skipInside, dif_pos inside, here, if_neg solid, if_pos rfl]
  simp only [doubled]

private theorem skipInside_feed (quoted : isQuote quote = true)
    (place : At data i (bytes ('\n' :: rest))) : skipInside data quote.toUInt8 false i = i := by
  obtain ⟨inside, here, behind⟩ := place.ascii (by decide)
  have inner : '\n'.toUInt8 ≠ quote.toUInt8 := by
    have apart := encode_other (ascii_of_isQuote quoted) (Ne.symm (quote_ne quoted).1) '\n'.toUInt8
    exact apart List.mem_cons_self
  rw [skipInside, dif_pos inside, here, if_neg (by decide), if_neg inner, if_pos ⟨rfl, rfl⟩]

private theorem skipInside_short (quoted : isQuote quote = true) (place : At data i (bytes text)) :
    skipInside data quote.toUInt8 false i = i + byteLength (shortLiteral quote text).1 := by
  fun_induction shortLiteral quote text generalizing i with
  | case1 => exact skipInside_end place
  | case2 c rest inside after cut ih =>
    rw [cut] at ih
    rw [skipInside_escaped quoted place, ih (place.chars ['\\', c])]
    simp [Nat.add_assoc]
  | case3 rest solid =>
    rw [skipInside_quote quoted place, if_pos rfl]
    simp [utf8Size_ascii (ascii_of_isQuote quoted)]
  | case4 rest solid other => exact skipInside_feed quoted place
  | case5 c rest solid other goes inside after cut ih =>
    rw [cut] at ih
    by_cases slash : c = '\\'
    · obtain rfl := eq_nil_of_lone solid slash
      subst slash
      cases cut
      exact skipInside_backslash place
    · rw [skipInside_char quoted place slash other fun _ => goes, ih place.char]
      simp [Nat.add_assoc]

private theorem skipInside_long (quoted : isQuote quote = true) (place : At data i (bytes text)) :
    skipInside data quote.toUInt8 true i = i + byteLength (longLiteral quote text).1 := by
  have size := utf8Size_ascii (ascii_of_isQuote quoted)
  fun_induction longLiteral quote text generalizing i with
  | case1 => exact skipInside_end place
  | case2 c rest inside after cut ih =>
    rw [cut] at ih
    rw [skipInside_escaped quoted place, ih (place.chars ['\\', c])]
    simp [Nat.add_assoc]
  | case3 c rest solid closes =>
    obtain ⟨rfl, doubled⟩ := closes
    rw [skipInside_quote quoted place, if_neg (by decide), if_pos doubled]
    simp [size]
  | case4 c rest solid goes inside after cut ih =>
    rw [cut] at ih
    by_cases slash : c = '\\'
    · obtain rfl := eq_nil_of_lone solid slash
      subst slash
      cases cut
      exact skipInside_backslash place
    · by_cases closes : c = quote
      · subst closes
        have behind := ih place.char
        rw [size] at behind
        rw [skipInside_quote quoted place, if_neg (by decide),
          if_neg fun doubled => goes ⟨rfl, doubled⟩, behind]
        simp [size, Nat.add_assoc]
      · rw [skipInside_char quoted place slash closes (by simp), ih place.char]
        simp [Nat.add_assoc]

/-- A literal ends for the scan of bytes where it ends for its characters. -/
theorem skipString_eq (quoted : isQuote quote = true) (place : At data i (bytes (quote :: text)))
    (inside : i < data.length) :
    skipString data i inside = i + byteLength (quote :: (literalTail quote text).1) := by
  have ascii := ascii_of_isQuote quoted
  have size := utf8Size_ascii ascii
  obtain ⟨_, here, behind⟩ := place.ascii ascii
  have doubled : doubledAt data quote.toUInt8 i = true ↔ text.take 2 = [quote, quote] := by
    rw [bytes_cons, encode_ascii ascii] at place
    rw [doubledAt_iff place, ← take_bytes ascii]
    rfl
  rw [skipString, here, literalTail]
  by_cases triple : text.take 2 = [quote, quote]
  · have parts := List.take_append_drop 2 text
    rw [triple] at parts
    rw [← parts] at behind
    have body := skipInside_long quoted (behind.chars [quote, quote])
    simp only [byteLength_cons, byteLength_nil, size] at body
    simp only [doubled.mpr triple, triple, if_true, byteLength_cons, size]
    rw [show i + 3 = i + 1 + (1 + (1 + 0)) by omega, body]
    omega
  · have single : doubledAt data quote.toUInt8 i = false := by
      rw [← Bool.not_eq_true, doubled]
      exact triple
    simp only [single, Bool.false_eq_true, if_false, triple, byteLength_cons, size,
      skipInside_short quoted behind]
    omega

/-! Brackets and marks. -/

theorem quotes_ascii : ∀ a ∈ quotes, a.toNat < 128 := by simp [quotes]

theorem openings_ascii : ∀ a ∈ openings, a.toNat < 128 := by simp [openings]

theorem closings_ascii : ∀ a ∈ closings, a.toNat < 128 := by simp [closings]

theorem isQuote_iff : isQuote c = true ↔ c ∈ quotes := by simp [isQuote, quotes]

theorem isOpening_iff : isOpening c = true ↔ c ∈ openings := by simp [isOpening, openings, or_assoc]

theorem isClosing_iff : isClosing c = true ↔ c ∈ closings := by simp [isClosing, closings, or_assoc]

/-- A byte of ASCII means to a scan what its character means. -/
theorem marks_ascii (ascii : c.toNat < 128) : among quotes c.toUInt8 = isQuote c ∧
    among openings c.toUInt8 = isOpening c ∧ among closings c.toUInt8 = isClosing c :=
  ⟨Bool.eq_iff_iff.mpr ((among_iff quotes_ascii ascii).trans isQuote_iff.symm),
    Bool.eq_iff_iff.mpr ((among_iff openings_ascii ascii).trans isOpening_iff.symm),
    Bool.eq_iff_iff.mpr ((among_iff closings_ascii ascii).trans isClosing_iff.symm)⟩

/-- A byte that means nothing to a scan outside of literals. -/
structure Quiet (byte : UInt8) : Prop where
  unquoted : among quotes byte = false
  unopened : among openings byte = false
  unclosed : among closings byte = false

/-- Beyond ASCII characters mean nothing, and none of their bytes do. -/
theorem quiet_wide (wide : 128 ≤ c.toNat) : (∀ byte ∈ String.utf8EncodeChar c, Quiet byte) ∧
    isOpening c = false ∧ isClosing c = false := by
  have apart {marks : List Char} (ascii : ∀ a ∈ marks, a.toNat < 128) : c ∉ marks :=
    fun mark => absurd (ascii c mark) (Nat.not_lt_of_le wide)
  refine ⟨fun byte member => ⟨among_encode quotes_ascii (apart quotes_ascii) byte member,
    among_encode openings_ascii (apart openings_ascii) byte member,
    among_encode closings_ascii (apart closings_ascii) byte member⟩, ?_, ?_⟩
  · rw [← Bool.not_eq_true, isOpening_iff]
    exact apart openings_ascii
  · rw [← Bool.not_eq_true, isClosing_iff]
    exact apart closings_ascii

/-- The byte at which a row is cut that begins at the byte `i`. -/
def reach (i : Nat) (cut : List Atom × List Atom) : Nat := i + byteLength (written cut.1)

private theorem map_reach (i : Nat) (atom : Atom) (cut : Option (List Atom × List Atom)) :
    (cut.map (behind [atom])).map (reach i) = cut.map (reach (i + byteLength atom.chars)) := by
  cases cut with
  | none => rfl
  | some cut => simp [reach, behind, written, Nat.add_assoc]

private theorem map_reach_plain (i : Nat) (c : Char) (cut : Option (List Atom × List Atom)) :
    (cut.map (behind [.plain c])).map (reach i) = cut.map (reach (i + c.utf8Size)) := by
  rw [map_reach, Atom.chars, byteLength_cons, byteLength_nil, Nat.add_zero]

private theorem closeIndex?_quiet (place : At data i (front ++ tail))
    (quiet : ∀ byte ∈ front, Quiet byte) :
    closeIndex? data depth i = closeIndex? data depth (i + front.length) := by
  refine place.pass (fun place quiet => ?_) quiet
  obtain ⟨inside, here, -⟩ := place.cons
  obtain ⟨unquoted, unopened, unclosed⟩ := quiet
  rw [closeIndex?, dif_pos inside]
  simp only [here, unquoted, unopened, unclosed, Bool.false_eq_true, if_false]

/-- The bracket that the scan of bytes closes at is the one that the row is cut at. -/
theorem closeIndex?_eq (place : At data i (bytes text)) :
    closeIndex? data depth i = (closeFrom? depth (atoms text)).map (reach i) := by
  fun_induction atoms text generalizing i depth with
  | case1 =>
    have last := place.nil
    rw [closeIndex?, dif_neg (by omega)]
    rfl
  | case2 c rest quoted ih =>
    have ascii := ascii_of_isQuote quoted
    obtain ⟨inside, here, -⟩ := place.ascii ascii
    have behind := place
    rw [← literalTail_append c rest, ← List.cons_append] at behind
    rw [closeIndex?, dif_pos inside, here, (marks_ascii ascii).1, if_pos quoted,
      skipString_eq quoted place, ih (behind.chars _), closeFrom?_literal, map_reach]
    rfl
  | case3 c rest unquoted ih =>
    by_cases ascii : c.toNat < 128
    · obtain ⟨inside, here, behind⟩ := place.ascii ascii
      obtain ⟨quoteMark, openMark, closeMark⟩ := marks_ascii ascii
      have size := utf8Size_ascii ascii
      rw [closeIndex?, dif_pos inside, here, quoteMark, openMark, closeMark, if_neg unquoted]
      by_cases opens : isOpening c = true
      · rw [if_pos opens, ih behind, closeFrom?_opening opens, map_reach_plain, size]
      · rw [if_neg opens]
        rw [Bool.not_eq_true] at opens
        by_cases closes : isClosing c = true
        · rw [if_pos closes]
          rcases depth with _ | _ | depth
          · rw [if_pos rfl, closeFrom?, if_neg (by simp [opens]), if_pos closes]
            rfl
          · rw [if_neg (by decide), if_pos rfl, closeFrom?_last opens closes]
            rfl
          · rw [if_neg (by omega), if_neg (by omega), ih behind, closeFrom?_closing opens closes,
              map_reach_plain, size]
            rfl
        · rw [if_neg closes, ih behind, closeFrom?_other opens (by simpa using closes),
            map_reach_plain, size]
    · obtain ⟨quiet, opens, closes⟩ := quiet_wide (Nat.le_of_not_lt ascii)
      rw [closeIndex?_quiet place quiet, String.length_utf8EncodeChar, ih place.char,
        closeFrom?_other opens closes, map_reach_plain]

private theorem findIndex?_quiet (ascii : target.toNat < 128)
    (place : At data i (bytes (c :: rest))) (wide : 128 ≤ c.toNat) :
    findIndex? data target.toUInt8 depth i =
      findIndex? data target.toUInt8 depth (i + c.utf8Size) := by
  have other : c ≠ target := by
    rintro rfl
    omega
  have passed : ∀ byte ∈ String.utf8EncodeChar c, Quiet byte ∧ byte ≠ target.toUInt8 :=
    fun byte member => ⟨(quiet_wide wide).1 byte member, encode_other ascii other byte member⟩
  rw [bytes_cons] at place
  rw [← String.length_utf8EncodeChar]
  refine place.pass (fun place passed => ?_) passed
  obtain ⟨inside, here, -⟩ := place.cons
  obtain ⟨⟨unquoted, unopened, unclosed⟩, missed⟩ := passed
  rw [findIndex?, dif_pos inside]
  simp only [here, unquoted, unopened, unclosed, missed, Bool.false_eq_true, false_and, if_false]

/-- The mark that the scan of bytes finds is the one that the row is cut at. -/
theorem findIndex?_eq (ascii : target.toNat < 128) (place : At data i (bytes text)) :
    findIndex? data target.toUInt8 depth i =
      (findFrom? target depth (atoms text)).map (reach i) := by
  fun_induction atoms text generalizing i depth with
  | case1 =>
    have last := place.nil
    rw [findIndex?, dif_neg (by omega)]
    rfl
  | case2 c rest quoted ih =>
    have ascii := ascii_of_isQuote quoted
    obtain ⟨inside, here, -⟩ := place.ascii ascii
    have behind := place
    rw [← literalTail_append c rest, ← List.cons_append] at behind
    rw [findIndex?, dif_pos inside, here, (marks_ascii ascii).1, if_pos quoted,
      skipString_eq quoted place, ih (behind.chars _), findFrom?_literal, map_reach]
    rfl
  | case3 c rest unquoted ih =>
    by_cases narrow : c.toNat < 128
    · obtain ⟨inside, here, behind⟩ := place.ascii narrow
      obtain ⟨quoteMark, openMark, closeMark⟩ := marks_ascii narrow
      have size := utf8Size_ascii narrow
      rw [findIndex?, dif_pos inside, here, quoteMark, openMark, closeMark, if_neg unquoted]
      by_cases hit : c = target ∧ depth = 0
      · rw [if_pos ⟨congrArg Char.toUInt8 hit.1, hit.2⟩, findFrom?, if_pos hit]
        rfl
      · have missed : ¬(c.toUInt8 = target.toUInt8 ∧ depth = 0) :=
          fun found => hit ⟨(toUInt8_inj ascii narrow).mp found.1, found.2⟩
        rw [if_neg missed, findFrom?_missed hit, map_reach_plain, size, ← ih behind]
        split
        · rfl
        · split <;> rfl
    · obtain ⟨-, opens, closes⟩ := quiet_wide (Nat.le_of_not_lt narrow)
      have deep : depth = 0 → c ≠ target := by
        rintro - rfl
        exact narrow ascii
      rw [findIndex?_quiet ascii place (Nat.le_of_not_lt narrow), ih place.char,
        findFrom?_other opens closes deep, map_reach_plain]

/-- The scan of bytes stops where the text is cut. -/
theorem findIndex?_cut (ascii : target.toNat < 128) (text : List Char) :
    findIndex? (bytes text) target.toUInt8 0 0 =
      (cutTopLevel? target text).map fun cut => byteLength cut.1 := by
  rw [findIndex?_eq ascii (.start _), cutTopLevel?, Option.map_map]
  congr 1
  funext cut
  exact Nat.zero_add _

/-! The bytes next to a place. -/

/-- The byte behind a text is a character of ASCII exactly if this character comes next. -/
theorem byte_behind (ascii : a.toNat < 128) (text rest : List Char) :
    (bytes (text ++ rest))[byteLength text]? = some a.toUInt8 ↔ rest.head? = some a := by
  have here : (bytes (text ++ rest))[byteLength text]? = (bytes rest).head? := by
    rw [bytes_append, List.getElem?_append_right (by simp), length_bytes, Nat.sub_self,
      List.head?_eq_getElem?]
  rw [here, List.head?_eq_some_iff, List.head?_eq_some_iff]
  constructor
  · rintro ⟨tail, same⟩
    obtain ⟨more, whole, -⟩ := (bytes_eq_cons ascii).mp same
    exact ⟨more, whole⟩
  · rintro ⟨more, whole⟩
    exact ⟨bytes more, (bytes_eq_cons ascii).mpr ⟨more, whole, rfl⟩⟩

/-- The last byte of a text is that of an ASCII character only if this is its last one. -/
theorem any_getLast_bytes (all : ∀ a ∈ marks, a.toNat < 128) (text : List Char) :
    (bytes text).getLast?.any (among marks) = text.getLast?.any (· ∈ marks) := by
  rcases List.eq_nil_or_concat' text with rfl | ⟨front, c, rfl⟩
  · rfl
  · have own : (bytes (front ++ [c])).getLast? = (String.utf8EncodeChar c).getLast? := by
      rw [bytes_append, bytes_cons, bytes_nil, List.append_nil]
      exact List.getLast?_append_of_ne_nil _ String.utf8EncodeChar_ne_nil
    rw [own, List.getLast?_concat, Option.any_some, Bool.eq_iff_iff, decide_eq_true_iff]
    by_cases mark : c ∈ marks
    · have ascii := all c mark
      rw [encode_ascii ascii]
      exact among_iff all ascii
    · cases last : (String.utf8EncodeChar c).getLast? with
      | none => simp [mark]
      | some byte =>
        rw [Option.any_some, among_encode all mark byte (List.mem_of_getLast? last)]
        simp [mark]

/-- A text ends in the byte of an ASCII character exactly if it ends in this character. -/
theorem getLast_bytes (ascii : a.toNat < 128) :
    (bytes text).getLast? = some a.toUInt8 ↔ text.getLast? = some a := by
  have all : ∀ c ∈ [a], c.toNat < 128 := by simpa using ascii
  have marked := any_getLast_bytes all text
  rw [Bool.eq_iff_iff, Option.any_eq_true, Option.any_eq_true] at marked
  simpa [among] using marked

/-- The byte before an offset is the last one of the text in front. -/
theorem byte_before (text rest : List Char) (some : text ≠ []) :
    (bytes (text ++ rest))[byteLength text - 1]? = (bytes text).getLast? := by
  have room : 0 < byteLength text :=
    Nat.pos_of_ne_zero fun none => some (byteLength_eq_zero.mp none)
  rw [bytes_append, List.getElem?_append_left (by rw [length_bytes]; omega), ← length_bytes,
    List.getLast?_eq_getElem?]

end ApiScribe.Bytewise
