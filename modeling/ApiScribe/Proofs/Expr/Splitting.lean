import ApiScribe.Proofs.Expr.Nesting
import ApiScribe.Proofs.Text.ShownLines

/-! Splitting at separators outside of brackets and literals. The splitter begins anew behind
each cut, which comes to one scan of the whole text: where a text is cut no bracket and no
literal is open. What is found in a text is also found when more follows, so a piece holds
no separator that the scan would have passed over. -/
namespace ApiScribe.Expr
open Text

/-- The depth of brackets behind a character. A closing bracket too many is ignored. -/
def depthBehind (c : Char) (depth : Nat) : Nat :=
  if isOpening c then depth + 1 else if isClosing c then depth - 1 else depth

/-- The segments of a text, read once from left to right. What has been read since the last
cut and how many brackets are open is carried along, a literal is passed as a whole, and
each separator at depth 0 is a cut. -/
def segmentsFrom (separator : Char) (depth : Nat) (segment : List Char) :
    List Char → List (List Char)
  | [] => [segment]
  | c :: rest =>
    if isQuote c then
      segmentsFrom separator depth (segment ++ c :: (literalTail c rest).1) (literalTail c rest).2
    else if c = separator ∧ depth = 0 then segment :: segmentsFrom separator depth [] rest
    else segmentsFrom separator (depthBehind c depth) (segment ++ [c]) rest
termination_by text => text.length
decreasing_by
  · have shorter := literalTail_after_length_le c rest
    simp only [List.length_cons]
    omega
  · simp
  · simp

variable {separator target c quote : Char} {text front rest more piece left right : List Char}

private theorem atoms_quoted (quoted : isQuote c = true) (rest : List Char) :
    atoms (c :: rest) = .literal (c :: (literalTail c rest).1) :: atoms (literalTail c rest).2 := by
  rw [atoms, if_pos quoted]

/-! One scan. -/

/-- The first cut of the scan is the one that a search finds, and the scan goes on behind it
as it began. -/
theorem segmentsFrom_eq (separator : Char) (depth : Nat) (segment text : List Char) :
    segmentsFrom separator depth segment text =
      match findFrom? separator depth (atoms text) with
      | none => [segment ++ text]
      | some (left, right) =>
        (segment ++ written left) :: segmentsFrom separator 0 [] (written right) := by
  fun_induction segmentsFrom separator depth segment text with
  | case1 depth segment => simp [atoms, findFrom?]
  | case2 depth segment c rest quoted ih =>
    rw [ih, atoms_quoted quoted, findFrom?_literal]
    cases findFrom? separator depth (atoms (literalTail c rest).2) with
    | none => simp [literalTail_append]
    | some cut => simp [behind, written, Atom.chars]
  | case3 depth segment c rest unquoted here ih =>
    rw [atoms_plain (by simpa using unquoted), findFrom?, if_pos here]
    simp only [written_atoms, here.2]
    simp [written]
  | case4 depth segment c rest unquoted missed ih =>
    rw [ih, atoms_plain (by simpa using unquoted), findFrom?_missed missed, depthBehind]
    cases findFrom? separator _ (atoms rest) with
    | none => simp
    | some cut => simp [behind, written, Atom.chars]

/-- The pieces are the segments that show something, each without the blanks around it. -/
theorem splitTopLevel_eq (separator : Char) (text : List Char) :
    splitTopLevel separator text =
      ((segmentsFrom separator 0 [] text).map trim).filter fun piece => !piece.isEmpty := by
  induction text using splitTopLevel.induct separator with
  | case1 text uncut =>
    have passed := uncut
    rw [cutTopLevel?, Option.map_eq_none_iff] at passed
    rw [splitTopLevel_uncut uncut, segmentsFrom_eq, passed]
    rfl
  | case2 text piece rest cut ih =>
    have passed := cut
    rw [cutTopLevel?, Option.map_eq_some_iff] at passed
    obtain ⟨⟨left, right⟩, found, same⟩ := passed
    cases same
    rw [splitTopLevel_cut cut, ih, segmentsFrom_eq separator 0 [] text, found, ← List.filter_append]
    rfl

/-! What is found in a text is found when more follows. -/

/-- A literal that something follows ends there whatever else follows. -/
theorem literalTail_more (quoted : isQuote quote = true) (ends : (literalTail quote text).2 ≠ [])
    (more : List Char) : literalTail quote (text ++ more) =
      ((literalTail quote text).1, (literalTail quote text).2 ++ more) := by
  have head : ((literalTail quote text).2 ++ more).head? = (literalTail quote text).2.head? :=
    List.head?_append_of_ne_nil _ ends
  have stable := literalTail_stable quoted text head
  rwa [← List.append_assoc, literalTail_append] at stable

/-- A mark that is found in a text is found in the same place when more follows. -/
theorem findFrom?_more {depth : Nat} {row found : List Atom}
    (cut : findFrom? target depth (atoms text) = some (row, found)) (more : List Char) :
    ∃ rest, found = atoms rest ∧
      findFrom? target depth (atoms (text ++ more)) = some (row, atoms (rest ++ more)) := by
  fun_induction atoms text generalizing depth row with
  | case1 => cases cut
  | case2 c rest quoted ih =>
    rw [findFrom?_literal, Option.map_eq_some_iff] at cut
    obtain ⟨⟨left, right⟩, deeper, same⟩ := cut
    cases same
    have ends : (literalTail c rest).2 ≠ [] := by
      intro none
      rw [none, atoms] at deeper
      cases deeper
    obtain ⟨behind, rfl, again⟩ := ih deeper
    refine ⟨behind, rfl, ?_⟩
    rw [List.cons_append, atoms_quoted quoted, literalTail_more quoted ends, findFrom?_literal, again]
    rfl
  | case3 c rest unquoted ih =>
    rw [List.cons_append, atoms_plain (by simpa using unquoted)]
    by_cases here : c = target ∧ depth = 0
    · rw [findFrom?, if_pos here] at cut ⊢
      cases cut
      exact ⟨rest, rfl, rfl⟩
    · rw [findFrom?_missed here, Option.map_eq_some_iff] at cut
      obtain ⟨⟨left, right⟩, deeper, same⟩ := cut
      cases same
      obtain ⟨behind, rfl, again⟩ := ih deeper
      exact ⟨behind, rfl, by rw [findFrom?_missed here, again]; rfl⟩

private theorem cutTopLevel?_more (cut : cutTopLevel? target text = some (left, right))
    (more : List Char) : cutTopLevel? target (text ++ more) = some (left, right ++ more) := by
  rw [cutTopLevel?, Option.map_eq_some_iff] at cut
  obtain ⟨⟨row, found⟩, first, same⟩ := cut
  cases same
  obtain ⟨rest, rfl, again⟩ := findFrom?_more first more
  rw [cutTopLevel?, again]
  simp [written_atoms]

/-! Pieces. -/

/-- A text that is not cut is not cut without its end. -/
theorem uncut_of_append (uncut : cutTopLevel? target (front ++ more) = none) :
    cutTopLevel? target front = none := by
  cases cut : cutTopLevel? target front with
  | none => rfl
  | some found =>
    rw [cutTopLevel?_more cut] at uncut
    cases uncut

/-- The part in front of a cut is not cut itself. -/
theorem uncut_of_cut (cut : cutTopLevel? target text = some (left, right)) :
    cutTopLevel? target left = none := by
  cases again : cutTopLevel? target left with
  | none => rfl
  | some found =>
    obtain ⟨first, others⟩ := found
    have whole := cutTopLevel?_append cut
    have same := cutTopLevel?_more again (target :: right)
    rw [← whole, cut, Option.some.injEq, Prod.mk.injEq] at same
    have length := congrArg List.length (cutTopLevel?_append again)
    rw [same.1, List.length_append, List.length_cons] at length
    omega

/-- A text that is not cut is not cut without the blanks in front of it. -/
theorem uncut_of_blank (blank : Blank front)
    (uncut : cutTopLevel? target (front ++ text) = none) : cutTopLevel? target text = none := by
  induction front with
  | nil => exact uncut
  | cons c others ih =>
    refine ih (fun d member => blank d (List.mem_cons_of_mem c member)) ?_
    obtain ⟨unquoted, opens, closes⟩ := quiet_of_isBlank (blank c List.mem_cons_self)
    rw [cutTopLevel?, Option.map_eq_none_iff, List.cons_append, atoms_plain unquoted] at uncut
    by_cases here : c = target
    · rw [findFrom?, if_pos ⟨here, rfl⟩] at uncut
      cases uncut
    · rw [findFrom?_other opens closes (fun _ => here), Option.map_eq_none_iff] at uncut
      rw [cutTopLevel?, uncut]
      rfl

private theorem uncut_trim (uncut : cutTopLevel? target text = none) :
    cutTopLevel? target (trim text) = none := by
  obtain ⟨more, _, whole⟩ := trimEnd_cut (trimStart text)
  rw [← takeWhile_append_trimStart text, ← whole] at uncut
  exact uncut_of_append (uncut_of_blank (blank_takeWhile text) uncut)

/-- A piece shows something, has no blank at either end and is not cut. -/
theorem piece_uncut (member : piece ∈ splitTopLevel separator text) :
    Tight piece ∧ cutTopLevel? separator piece = none := by
  have trimmed {part : List Char} (uncut : cutTopLevel? separator part = none)
      (member : piece ∈ if (trim part).isEmpty then [] else [trim part]) :
      Tight piece ∧ cutTopLevel? separator piece = none := by
    split at member
    · cases member
    · next some =>
      rw [List.mem_singleton.mp member]
      exact ⟨tight_trim (by simpa using some), uncut_trim uncut⟩
  fun_induction splitTopLevel separator text with
  | case1 text uncut => exact trimmed uncut member
  | case2 text front rest cut ih =>
    exact (List.mem_append.mp member).elim (trimmed (uncut_of_cut cut)) ih

/-- A text is split at the separators that one scan of it finds, and no piece can be split
further. -/
theorem splitTopLevel_one_scan (separator : Char) (text : List Char) :
    splitTopLevel separator text =
        ((segmentsFrom separator 0 [] text).map trim).filter (fun piece => !piece.isEmpty) ∧
      ∀ piece ∈ splitTopLevel separator text, splitTopLevel separator piece = [piece] :=
  ⟨splitTopLevel_eq separator text, fun _ member =>
    splitTopLevel_tight (piece_uncut member).1 (piece_uncut member).2⟩

/-- A bracket that nothing opened, a literal that its line ends and one bracket that stays
open. The comma of the literal stays in its piece although the line feed that ended it is gone. -/
theorem unclosed_literal_one_piece :
    "'b, c".toList ∈ splitTopLevel ',' "a), 'b, c \n, (d, e".toList ∧
      splitTopLevel ',' "'b, c".toList = ["'b, c".toList] := by
  have member : "'b, c".toList ∈ splitTopLevel ',' "a), 'b, c \n, (d, e".toList := by
    decide +kernel
  exact ⟨member, (splitTopLevel_one_scan ',' _).2 _ member⟩

end ApiScribe.Expr
