import ApiScribe.Text.Blank

/-! Cutting texts at characters, lines and fixed words. A cut never drops a
character other than the separator it cuts at. -/
namespace ApiScribe.Text

/-- The segments between the characters that satisfy `separator`; a text
without one is its own only segment. -/
def splitAt (separator : Char → Bool) : List Char → List (List Char)
  | [] => [[]]
  | c :: rest =>
    if separator c then [] :: splitAt separator rest
    else match splitAt separator rest with
      | [] => [[c]]
      | segment :: others => (c :: segment) :: others

theorem splitAt_ne_nil (separator : Char → Bool) (text : List Char) :
    splitAt separator text ≠ [] := by
  induction text with
  | nil => simp [splitAt]
  | cons c rest ih =>
    rw [splitAt]
    split
    · simp
    · split <;> simp

/-- A text without a separator is one piece. -/
theorem splitAt_of_none {separator : Char → Bool} {text : List Char}
    (none : ∀ c ∈ text, separator c = false) : splitAt separator text = [text] := by
  induction text with
  | nil => rfl
  | cons c rest ih =>
    rw [splitAt, none c List.mem_cons_self, if_neg Bool.false_ne_true,
      ih fun c member => none c (List.mem_cons_of_mem _ member)]

/-- A separator ends the segments before it. -/
theorem splitAt_append {separator : Char → Bool} {c : Char} (separates : separator c = true)
    (front rest : List Char) :
    splitAt separator (front ++ c :: rest) = splitAt separator front ++ splitAt separator rest := by
  induction front with
  | nil =>
    show splitAt separator (c :: rest) = [] :: splitAt separator rest
    rw [splitAt, if_pos separates]
  | cons first front ih =>
    rw [List.cons_append, splitAt, splitAt]
    by_cases here : separator first = true
    · rw [if_pos here, if_pos here, ih, List.cons_append]
    · rw [if_neg here, if_neg here, ih]
      cases segments : splitAt separator front with
      | nil => exact absurd segments (splitAt_ne_nil separator front)
      | cons segment others => rfl

/-- The runs of characters between blanks. -/
def words (text : List Char) : List (List Char) :=
  (splitAt isBlank text).filter (!·.isEmpty)

/-- The lines of a text. A line ends at a line feed, which one carriage return
may precede; a line feed at the very end opens no further line. -/
def lines : List Char → List (List Char)
  | [] => []
  | '\n' :: rest => [] :: lines rest
  | '\r' :: '\n' :: rest => [] :: lines rest
  | c :: rest =>
    match lines rest with
    | [] => [[c]]
    | line :: others => (c :: line) :: others

/-- The rest of a text after `head`, if the text begins with it. -/
def dropHead? (head text : List Char) : Option (List Char) :=
  if head.isPrefixOf text then some (text.drop head.length) else none

/-- The part of a text before `tail`, if the text ends with it. -/
def dropTail? (tail text : List Char) : Option (List Char) :=
  (dropHead? tail.reverse text.reverse).map List.reverse

/-- Cuts a text at the first place where `mark` stands. -/
def cutAt? (mark : List Char) : List Char → Option (List Char × List Char)
  | [] => if mark.isEmpty then some ([], []) else none
  | c :: rest =>
    match dropHead? mark (c :: rest) with
    | some after => some ([], after)
    | none => (cutAt? mark rest).map fun (before, after) => (c :: before, after)

def contains (mark text : List Char) : Bool := (cutAt? mark text).isSome

/-- A mark is found wherever it stands. -/
theorem contains_append (mark front rest : List Char) :
    contains mark (front ++ (mark ++ rest)) = true := by
  rw [contains]
  induction front with
  | nil =>
    rw [List.nil_append]
    cases whole : mark ++ rest with
    | nil =>
      rw [List.append_eq_nil_iff] at whole
      rw [cutAt?, whole.1]
      rfl
    | cons c others =>
      have found : dropHead? mark (c :: others) = some rest := by
        rw [← whole, dropHead?, if_pos (by simp), List.drop_left]
      rw [cutAt?, found]
      rfl
  | cons c front ih =>
    rw [List.cons_append, cutAt?]
    split
    · rfl
    · rw [Option.isSome_map, ih]

/-- A text without the characters `c` at its end. -/
def dropTrailing (c : Char) (text : List Char) : List Char :=
  (text.reverse.dropWhile (· == c)).reverse

theorem dropTrailing_prefix (c : Char) (text : List Char) : dropTrailing c text <+: text := by
  have tail := (List.dropWhile_suffix (· == c) (l := text.reverse)).reverse
  rwa [List.reverse_reverse] at tail

/-- Writes `new` for each character `old`. -/
def replaceChar (old : Char) (new : List Char) (text : List Char) : List Char :=
  text.flatMap fun c => if c = old then new else [c]

/-- Texts one after the other with `separator` in between. -/
def joined (separator : List Char) : List (List Char) → List Char
  | [] => []
  | [only] => only
  | first :: others => first ++ separator ++ joined separator others

theorem joined_cons_cons (separator first second : List Char) (others : List (List Char)) :
    joined separator (first :: second :: others) =
      first ++ separator ++ joined separator (second :: others) := rfl

theorem joined_cons_of_ne_nil {segments : List (List Char)} (separator first : List Char)
    (some : segments ≠ []) :
    joined separator (first :: segments) = first ++ separator ++ joined separator segments := by
  cases segments with
  | nil => exact absurd rfl some
  | cons second others => rfl

/-- Two rows of segments are joined with one separator between them. -/
theorem joined_append {separator : List Char} {front rest : List (List Char)} (some : front ≠ [])
    (more : rest ≠ []) :
    joined separator (front ++ rest) =
      joined separator front ++ separator ++ joined separator rest := by
  induction front with
  | nil => exact absurd rfl some
  | cons first others ih =>
    cases others with
    | nil => exact joined_cons_of_ne_nil separator first more
    | cons second others =>
      have below := ih (List.cons_ne_nil _ _)
      rw [List.cons_append] at below
      rw [List.cons_append, List.cons_append, joined_cons_cons, joined_cons_cons, below]
      simp only [List.append_assoc]

/-- No segment holds a separator. -/
theorem splitAt_free {separator : Char → Bool} {text segment : List Char}
    (member : segment ∈ splitAt separator text) :
    ∀ c ∈ segment, separator c = false := by
  induction text generalizing segment with
  | nil =>
    rw [splitAt, List.mem_singleton] at member
    simp [member]
  | cons first rest ih =>
    rw [splitAt] at member
    split at member
    · rcases List.mem_cons.mp member with rfl | later
      · simp
      · exact ih later
    · next inside =>
      have free : separator first = false := by simpa using inside
      split at member
      · rw [List.mem_singleton] at member
        simp [member, free]
      · next found others whole =>
        rcases List.mem_cons.mp member with rfl | later
        · have below := ih (whole ▸ List.mem_cons_self)
          simpa [free] using below
        · exact ih (whole ▸ List.mem_cons_of_mem _ later)

/-- The segments with the separators between them are the text. -/
theorem joined_splitAt (c : Char) (text : List Char) :
    joined [c] (splitAt (· == c) text) = text := by
  induction text with
  | nil => rfl
  | cons first rest ih =>
    have some := splitAt_ne_nil (· == c) rest
    rw [splitAt]
    split
    · next here =>
      rw [joined_cons_of_ne_nil _ _ some, ih, eq_of_beq here]
      rfl
    · split
      · next none => exact absurd none some
      · next segment others whole =>
        rw [whole] at ih
        cases others with
        | nil => simpa [joined] using ih
        | cons second others => simpa [joined_cons_cons] using ih

/-- Segments without separators are found again between them. -/
theorem splitAt_joined {c : Char} {segments : List (List Char)}
    (free : ∀ segment ∈ segments, ∀ d ∈ segment, d ≠ c) (some : segments ≠ []) :
    splitAt (· == c) (joined [c] segments) = segments := by
  induction segments with
  | nil => exact absurd rfl some
  | cons first others ih =>
    have alone : splitAt (· == c) first = [first] :=
      splitAt_of_none fun d member => by simpa using free first List.mem_cons_self d member
    cases others with
    | nil => exact alone
    | cons second others =>
      have below := ih (fun segment member => free segment (List.mem_cons_of_mem _ member))
        (List.cons_ne_nil _ _)
      rw [joined_cons_cons, List.append_assoc, List.singleton_append,
        splitAt_append (by simp), alone, below]
      rfl

/-- Lines with the line end of each. -/
def unlines (lines : List String) : String := String.join (lines.map (· ++ "\n"))

@[simp] theorem toList_unlines_nil : (unlines []).toList = [] := rfl

@[simp] theorem toList_unlines_cons (first : String) (others : List String) :
    (unlines (first :: others)).toList = first.toList ++ '\n' :: (unlines others).toList := by
  simp [unlines, String.toList_join]

/-- The bytes a text takes in UTF-8. -/
def byteLength (text : List Char) : Nat := text.foldl (fun length c => length + c.utf8Size) 0

def startsWith (text head : String) : Bool := head.toList.isPrefixOf text.toList

def endsWith (text tail : String) : Bool := tail.toList.isSuffixOf text.toList

end ApiScribe.Text
