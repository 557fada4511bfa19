import ApiScribe.Proofs.Expr.Scanning
import ApiScribe.Proofs.Web.Paths
import Mathlib.Data.List.TakeWhile

/-! Named groups of route patterns. A group is read up to the first closing bracket, so of a
group with further groups inside only the beginning is replaced. What is left over cannot be
mistaken for the route: it keeps a closing bracket, or it is replaced by one placeholder
more than the route has groups. -/
namespace ApiScribe.Route
open Text

/-! Patterns of text and groups. -/

/-- Characters with a meaning of their own in a route pattern or in its path. -/
def reserved : List Char := ['(', ')', '[', ']', '\x7b', '\x7d', '\\', '^', '$', '<', '>']

/-- A character that stands for itself in a route pattern. -/
def isPathChar (c : Char) : Bool := !isBlank c && !reserved.contains c

/-- A part of a route pattern. -/
inductive Part where
  | text (chars : List Char)
  | group (name body : List Char)
  deriving DecidableEq

namespace Part

/-- The part as the pattern spells it. -/
def pattern : Part → List Char
  | text chars => chars
  | group name body => '(' :: '?' :: 'P' :: '<' :: (name ++ '>' :: (body ++ [')']))

/-- The part as the path is to show it. -/
def path : Part → List Char
  | text chars => chars
  | group name _ => placeholder name

/-- Text stands for itself and groups are named by a word. -/
def Readable : Part → Prop
  | text chars => ∀ c ∈ chars, isPathChar c = true
  | group name _ => name ≠ [] ∧ ∀ c ∈ name, isWordChar c = true

instance : (part : Part) → Decidable part.Readable
  | text chars => decidable_of_iff (chars.all isPathChar = true) List.all_eq_true
  | group name _ =>
    decidable_of_iff (name ≠ [] ∧ name.all isWordChar = true) (and_congr_right' List.all_eq_true)

end Part

/-- Text in which every bracket has its counterpart. -/
inductive Balanced : List Char → Prop where
  | nil : Balanced []
  | char (opens : c ≠ '(') (closes : c ≠ ')') (rest : Balanced text) : Balanced (c :: text)
  | group (inner : Balanced body) (rest : Balanced text) :
      Balanced ('(' :: (body ++ ')' :: text))

variable {c : Char} {name body text rest after : List Char} {part : Part} {parts : List Part}

/-- Text with a closing bracket has an opening one, which begins a group inside. -/
theorem Balanced.closes_iff (balanced : Balanced body) : ')' ∈ body ↔ '(' ∈ body := by
  induction balanced with
  | nil => simp
  | char opens closes rest ih => simp [opens.symm, closes.symm, ih]
  | group => simp

private theorem balanced_of_free (opens : '(' ∉ text) (closes : ')' ∉ text) : Balanced text := by
  induction text with
  | nil => exact .nil
  | cons c rest ih =>
    rw [List.mem_cons, not_or] at opens closes
    exact .char (Ne.symm opens.1) (Ne.symm closes.1) (ih opens.2 closes.2)

/-! How a group is read. -/

private theorem takeWhile_word (word : ∀ c ∈ name, isWordChar c = true)
    (stop : isWordChar c = false) :
    (name ++ c :: rest).takeWhile isWordChar = name := by
  rw [List.takeWhile_append_of_pos word, List.takeWhile_cons_of_neg (by simp [stop]),
    List.append_nil]

private theorem dropWhile_word (word : ∀ c ∈ name, isWordChar c = true)
    (stop : isWordChar c = false) :
    (name ++ c :: rest).dropWhile isWordChar = c :: rest := by
  rw [List.dropWhile_append_of_pos word, List.dropWhile_cons_of_neg (by simp [stop])]

private theorem dropWhile_body (closed : ')' ∉ body) (after : List Char) :
    (body ++ ')' :: after).dropWhile (· ≠ ')') = ')' :: after := by
  have open' : ∀ c ∈ body, (decide (c ≠ ')')) = true := fun c member =>
    decide_eq_true fun same => closed (same ▸ member)
  rw [List.dropWhile_append_of_pos open', List.dropWhile_cons_of_neg (by simp)]

/-- A named group is read with what stands before the first closing bracket as its body. -/
theorem readGroup?_group (named : name ≠ []) (word : ∀ c ∈ name, isWordChar c = true)
    (closed : ')' ∉ body) (after : List Char) :
    readGroup? ('?' :: 'P' :: '<' :: (name ++ '>' :: (body ++ ')' :: after))) =
      some (name, after) := by
  have stop : isWordChar '>' = false := by decide
  simp only [readGroup?]
  rw [takeWhile_word word stop, dropWhile_word word stop, if_neg (by simpa using named)]
  simp only
  rw [dropWhile_body closed]
  rfl

/-- Whatever is read as a group ends at the first closing bracket. -/
theorem readGroup?_ends (read : readGroup? text = some (name, after)) :
    ∃ front, ')' ∉ front ∧ text = front ++ ')' :: after := by
  unfold readGroup? at read
  split at read
  · next rest =>
    simp only at read
    split at read
    · cases read
    · split at read
      · next body found =>
        split at read
        · next tail closed =>
          cases read
          have named : ')' ∉ rest.takeWhile isWordChar := fun member =>
            absurd (List.mem_takeWhile_imp member) (by decide)
          have inside : ')' ∉ body.takeWhile (· ≠ ')') := fun member => by
            simpa using List.mem_takeWhile_imp member
          have whole := List.takeWhile_append_dropWhile (p := isWordChar) (l := rest)
          have bodyWhole := List.takeWhile_append_dropWhile (p := (· ≠ ')')) (l := body)
          rw [closed] at bodyWhole
          rw [found, ← bodyWhole] at whole
          generalize body.takeWhile (· ≠ ')') = front at inside whole
          refine ⟨'?' :: 'P' :: '<' :: (rest.takeWhile isWordChar ++ '>' :: front),
            by simp [named, inside], ?_⟩
          simpa using whole.symm
        · cases read
      · cases read
  · cases read

/-- A group that begins before a closing bracket ends there at the latest. -/
theorem readGroup?_before (read : readGroup? (text ++ ')' :: rest) = some (name, after)) :
    after = rest ∨ ∃ more, more.length < text.length ∧ after = more ++ ')' :: rest := by
  obtain ⟨front, closed, split⟩ := readGroup?_ends read
  rcases List.append_eq_append_iff.mp split with
    ⟨between, rfl, ends⟩ | ⟨between, rfl, ends⟩
  · cases between with
    | nil => exact .inl (List.cons.inj ends).2.symm
    | cons c between =>
      rw [List.cons_append, List.cons.injEq] at ends
      exact absurd (List.mem_append_right _ (ends.1 ▸ List.mem_cons_self)) closed
  · cases between with
    | nil => exact .inl (List.cons.inj ends).2
    | cons c between =>
      rw [List.cons_append, List.cons.injEq] at ends
      exact .inr ⟨between, by simp; omega, ends.2⟩

/-! How groups are replaced. -/

private theorem replaceGroups_cons (other : c ≠ '(') (rest : List Char) :
    replaceGroups (c :: rest) = c :: replaceGroups rest := by
  rw [replaceGroups, if_neg other]

private theorem replaceGroups_read (read : readGroup? rest = some (name, after)) :
    replaceGroups ('(' :: rest) = placeholder name ++ replaceGroups after := by
  rw [replaceGroups, if_pos rfl]
  split
  · next found again =>
    rw [read] at again
    cases again
    rfl
  · next none =>
    rw [read] at none
    cases none

private theorem replaceGroups_unread (unread : readGroup? rest = none) :
    replaceGroups ('(' :: rest) = '(' :: replaceGroups rest := by
  rw [replaceGroups, if_pos rfl]
  split
  · next found =>
    rw [unread] at found
    cases found
  · rfl

private theorem replaceGroups_text (free : '(' ∉ text) (rest : List Char) :
    replaceGroups (text ++ rest) = text ++ replaceGroups rest := by
  induction text with
  | nil => rfl
  | cons c text ih =>
    rw [List.mem_cons, not_or] at free
    rw [List.cons_append, replaceGroups_cons (Ne.symm free.1), ih free.2, List.cons_append]

/-- Text up to a closing bracket leaves the bracket or a placeholder behind. -/
theorem replaceGroups_leftover (text rest : List Char) :
    ∃ front, (')' ∈ front ∨ '\x7b' ∈ front) ∧
      replaceGroups (text ++ ')' :: rest) = front ++ replaceGroups rest := by
  induction bound : text.length using Nat.strongRecOn generalizing text with
  | _ length shorter =>
    cases text with
    | nil => exact ⟨[')'], by simp, replaceGroups_cons (by decide) rest⟩
    | cons c text =>
      have kept : replaceGroups (c :: (text ++ ')' :: rest)) =
          c :: replaceGroups (text ++ ')' :: rest) → ∃ front, (')' ∈ front ∨ '\x7b' ∈ front) ∧
            replaceGroups (c :: text ++ ')' :: rest) = front ++ replaceGroups rest := by
        intro skipped
        obtain ⟨front, left, same⟩ := shorter text.length (by simp [← bound]) text rfl
        exact ⟨c :: front, left.imp (List.mem_cons_of_mem c) (List.mem_cons_of_mem c),
          skipped.trans (congrArg (c :: ·) same)⟩
      by_cases opens : c = '('
      · subst opens
        cases read : readGroup? (text ++ ')' :: rest) with
        | none => exact kept (replaceGroups_unread read)
        | some found =>
          obtain ⟨name, after⟩ := found
          have replaced := replaceGroups_read read
          have shown : '\x7b' ∈ placeholder name := List.mem_cons_self
          rcases readGroup?_before read with rfl | ⟨more, less, rfl⟩
          · exact ⟨placeholder name, .inr shown, replaced⟩
          · obtain ⟨front, _, same⟩ := shorter more.length (by simp [← bound]; omega) more rfl
            exact ⟨placeholder name ++ front, .inr (List.mem_append_left _ shown),
              replaced.trans (by rw [same, List.append_assoc])⟩
      · exact kept (replaceGroups_cons opens _)

/-- A named group is replaced as a whole unless a closing bracket stands in its body: then
what follows the bracket is left. -/
theorem replaceGroups_group (named : name ≠ []) (word : ∀ c ∈ name, isWordChar c = true)
    (body rest : List Char) :
    ∃ left, replaceGroups ((Part.group name body).pattern ++ rest) =
        placeholder name ++ left ++ replaceGroups rest ∧
      (')' ∉ body → left = []) ∧ (')' ∈ body → ')' ∈ left ∨ '\x7b' ∈ left) := by
  have spelled : (Part.group name body).pattern ++ rest =
      '(' :: ('?' :: 'P' :: '<' :: (name ++ '>' :: (body ++ ')' :: rest))) := by
    simp [Part.pattern]
  by_cases closes : ')' ∈ body
  · obtain ⟨front, after, rfl, closed⟩ := List.eq_append_cons_of_mem closes
    obtain ⟨left, remains, same⟩ := replaceGroups_leftover after rest
    refine ⟨left, ?_, fun free => absurd closes free, fun _ => remains⟩
    rw [spelled, List.append_assoc, List.cons_append,
      replaceGroups_read (readGroup?_group named word closed _), same, List.append_assoc]
  · refine ⟨[], ?_, fun _ => rfl, fun member => absurd member closes⟩
    rw [spelled, replaceGroups_read (readGroup?_group named word closes rest), List.append_nil]

/-! What the other steps keep. -/

/-- Only backslashes are dropped. -/
theorem count_unescape (other : c ≠ '\\') (text : List Char) :
    (unescape text).count c = text.count c := by
  fun_induction unescape text with
  | case1 rest ih => simp [List.count_cons, ih, other.symm]
  | case2 rest ih => simp [List.count_cons, ih, other.symm]
  | case3 rest ih => simp [List.count_cons, ih, other.symm]
  | case4 first rest _ _ _ ih => rw [List.count_cons, List.count_cons, ih]
  | case5 => rfl

private theorem unescape_free (free : '\\' ∉ text) : unescape text = text := by
  fun_induction unescape text with
  | case1 => simp at free
  | case2 => simp at free
  | case3 => simp at free
  | case4 first rest _ _ _ ih => rw [ih fun member => free (List.mem_cons_of_mem first member)]
  | case5 => rfl

private theorem replaceConverters_free (free : '<' ∉ text) : replaceConverters text = text := by
  induction text with
  | nil => rw [replaceConverters]
  | cons c rest ih =>
    rw [List.mem_cons, not_or] at free
    rw [replaceConverters, if_neg (Ne.symm free.1), ih free.2]

/-- What is read of a converter behind its bracket. -/
theorem readClosedWord?_passes (read : readClosedWord? text = some (name, after)) :
    text = name ++ '>' :: after ∧ ∀ d ∈ name, isWordChar d = true := by
  unfold readClosedWord? at read
  simp only at read
  split at read
  · cases read
  · split at read
    · next found =>
      cases read
      have whole := List.takeWhile_append_dropWhile (p := isWordChar) (l := text)
      rw [found] at whole
      exact ⟨whole.symm, fun d member => List.mem_takeWhile_imp member⟩
    · cases read

private theorem readConverter?_passes (read : readConverter? text = some (name, after)) :
    ∃ front, text = front ++ after ∧
      ∀ d ∈ front, isWordChar d = true ∨ d = ':' ∨ d = '>' := by
  unfold readConverter? at read
  rcases Option.or_eq_some_iff.mp read with plain | ⟨-, typed⟩
  · obtain ⟨rfl, word⟩ := readClosedWord?_passes plain
    refine ⟨name ++ ['>'], by simp, fun d member => ?_⟩
    simp only [List.mem_append, List.mem_singleton] at member
    exact member.imp (word d) .inr
  · split at typed
    · cases typed
    · split at typed
      · next rest found =>
        obtain ⟨rfl, word⟩ := readClosedWord?_passes typed
        have whole := List.takeWhile_append_dropWhile (p := isWordChar) (l := text)
        rw [found] at whole
        refine ⟨text.takeWhile isWordChar ++ ':' :: (name ++ ['>']), by simpa using whole.symm, ?_⟩
        intro d member
        simp only [List.mem_append, List.mem_cons, List.not_mem_nil, or_false] at member
        rcases member with type | rfl | (named | rfl)
        · exact .inl (List.mem_takeWhile_imp type)
        · exact .inr (.inl rfl)
        · exact .inl (word d named)
        · exact .inr (.inr rfl)
      · cases typed

/-- No character is lost but those that converters are made of. -/
theorem count_replaceConverters (plain : isWordChar c = false) (apart : c ∉ [':', '<', '>'])
    (text : List Char) : text.count c ≤ (replaceConverters text).count c := by
  simp only [List.mem_cons, List.not_mem_nil, or_false, not_or] at apart
  fun_induction replaceConverters text with
  | case1 => exact Nat.le_refl _
  | case2 rest name after read ih =>
    obtain ⟨front, rfl, passed⟩ := readConverter?_passes read
    have absent : c ∉ front := fun member => by
      rcases passed c member with word | rfl | rfl
      · rw [plain] at word
        cases word
      · exact apart.1 rfl
      · exact apart.2.2 rfl
    rw [List.count_cons_of_ne (Ne.symm apart.2.1), List.count_append,
      List.count_eq_zero_of_not_mem absent, Nat.zero_add, List.count_append]
    exact Nat.le_trans ih (Nat.le_add_left _ _)
  | case3 rest unread ih =>
    rw [List.count_cons, List.count_cons]
    exact Nat.add_le_add_right ih _
  | case4 first rest other ih =>
    rw [List.count_cons, List.count_cons]
    exact Nat.add_le_add_right ih _

/-! The ends of a pattern. -/

/-- The slash that a path lacks at its beginning. -/
def lackedOpening (path : List Char) : List Char := if path.head? = some '/' then [] else ['/']

/-- The slash that a path lacks at its end. An empty path needs no second one. -/
def lackedClosing (path : List Char) : List Char :=
  if path = [] ∨ path.getLast? = some '/' then [] else ['/']

private theorem withSlashes_eq (path : List Char) :
    withSlashes path = lackedOpening path ++ path ++ lackedClosing path := by
  cases path with
  | nil => rfl
  | cons c rest =>
    have closing (opened : List Char) (same : opened.getLast? = (c :: rest).getLast?) :
        (if opened.getLast? = some '/' then opened else opened ++ ['/']) =
          opened ++ lackedClosing (c :: rest) := by
      rw [lackedClosing, same]
      split <;> simp_all
    by_cases opens : (c :: rest).head? = some '/'
    · simp only [withSlashes, lackedOpening, if_pos opens]
      exact closing _ rfl
    · simp only [withSlashes, lackedOpening, if_neg opens]
      exact closing _ List.getLast?_cons_cons

/-- A character that is neither trimmed nor an anchor. -/
structure IsEdge (c : Char) : Prop where
  solid : isBlank c = false
  noStart : c ≠ '^'
  noEnd : c ≠ '$'

private theorem isEdge_of_isPathChar (plain : isPathChar c = true) : IsEdge c := by
  simp only [isPathChar, Bool.and_eq_true, Bool.not_eq_true', List.contains_eq_mem] at plain
  refine ⟨plain.1, ?_, ?_⟩ <;> rintro rfl <;> exact absurd plain.2 (by decide)

/-- A text of which trimming and anchors leave both ends. -/
structure Edged (text : List Char) : Prop where
  first : ∀ c, text.head? = some c → IsEdge c
  last : ∀ c, text.getLast? = some c → IsEdge c

private theorem Edged.append (front : Edged text) (back : Edged rest) : Edged (text ++ rest) where
  first c here := by
    rw [List.head?_append] at here
    rcases Option.or_eq_some_iff.mp here with own | ⟨_, later⟩
    · exact front.first c own
    · exact back.first c later
  last c here := by
    rw [List.getLast?_append] at here
    rcases Option.or_eq_some_iff.mp here with later | ⟨_, own⟩
    · exact back.last c later
    · exact front.last c own

private theorem Part.Readable.edged (readable : part.Readable) : Edged part.pattern := by
  cases part with
  | text chars =>
    exact ⟨fun c first => isEdge_of_isPathChar (readable c (List.mem_of_head? first)),
      fun c last => isEdge_of_isPathChar (readable c (List.mem_of_getLast? last))⟩
  | group name body =>
    have closing : (Part.group name body).pattern =
        '(' :: '?' :: 'P' :: '<' :: (name ++ '>' :: body) ++ [')'] := by simp [Part.pattern]
    constructor
    · rintro c first
      cases first
      exact ⟨by decide, by decide, by decide⟩
    · rintro c last
      rw [closing, List.getLast?_concat] at last
      cases last
      exact ⟨by decide, by decide, by decide⟩

private theorem edged_pattern (readable : ∀ part ∈ parts, part.Readable) :
    Edged (parts.flatMap Part.pattern) := by
  induction parts with
  | nil => constructor <;> intro c here <;> cases here
  | cons part rest ih =>
    obtain ⟨here, below⟩ := List.forall_mem_cons.mp readable
    exact here.edged.append (ih below)

/-- Nothing is cut off a text with such ends. -/
theorem Edged.ofRegex (edged : Edged text) :
    ofRegex (trim text) = unescape (replaceGroups text) := by
  rcases List.eq_nil_or_concat text with rfl | ⟨front, d, rfl⟩
  · rfl
  · rw [List.concat_eq_append] at edged ⊢
    obtain ⟨c, rest, whole⟩ := List.exists_cons_of_ne_nil (List.append_ne_nil_of_right_ne_nil
      front (List.cons_ne_nil d []))
    have head : (front ++ [d]).head? = some c := by rw [whole]; rfl
    have tail : (front ++ [d]).getLast? = some d := List.getLast?_concat
    have tight : Expr.Tight (front ++ [d]) :=
      ⟨⟨c, head, (edged.first c head).solid⟩, ⟨d, tail, (edged.last d tail).solid⟩⟩
    have unopened : (front ++ [d]).dropWhile (· == '^') = front ++ [d] := by
      rw [whole, List.dropWhile_cons_of_neg (by simp [(edged.first c head).noStart])]
    have unended : dropTrailing '$' (front ++ [d]) = front ++ [d] := by
      rw [dropTrailing, List.reverse_concat,
        List.dropWhile_cons_of_neg (by simp [(edged.last d tail).noEnd]), List.reverse_cons,
        List.reverse_reverse]
    rw [tight.trim, Route.ofRegex, unopened, unended]

/-! What becomes of the parts. -/

/-- A part without a closing bracket in its body. -/
def Part.Flat : Part → Prop
  | .text _ => True
  | .group _ body => ')' ∉ body

/-- A text that is not this path: it has a closing bracket or too many placeholders. -/
def Spoiled (path text : List Char) : Prop :=
  ')' ∈ text ∨ path.count '\x7b' < text.count '\x7b'

private theorem isPathChar_apart (plain : isPathChar c = true) : c ∉ reserved := by
  simp only [isPathChar, Bool.and_eq_true, Bool.not_eq_true', List.contains_eq_mem] at plain
  exact of_decide_eq_false plain.2

/-- No part shows a reserved character in the path but the brackets of placeholders. -/
theorem Part.Readable.free (readable : part.Readable) {d : Char} (special : d ∈ reserved)
    (other : d ≠ '\x7b' ∧ d ≠ '\x7d') : d ∉ part.path := by
  cases part with
  | text chars => exact fun member => isPathChar_apart (readable d member) special
  | group name body =>
    have unworded : reserved.all (fun c => !isWordChar c) = true := by decide
    intro member
    simp only [Part.path, placeholder, List.mem_append, List.mem_cons, List.not_mem_nil,
      or_false, other.1, other.2, false_or] at member
    have word := readable.2 d member
    simpa [word] using List.all_eq_true.mp unworded d special

/-- A part becomes what the path is to show, with something left over if it is not flat. -/
theorem replaceGroups_part (readable : part.Readable) (rest : List Char) :
    ∃ left, replaceGroups (part.pattern ++ rest) = part.path ++ left ++ replaceGroups rest ∧
      (part.Flat → left = []) ∧ (¬ part.Flat → ')' ∈ left ∨ '\x7b' ∈ left) := by
  cases part with
  | text chars =>
    have free : '(' ∉ chars := readable.free (d := '(') (by decide) (by decide)
    exact ⟨[], by simp [Part.pattern, Part.path, replaceGroups_text free], fun _ => rfl,
      fun nested => absurd trivial nested⟩
  | group name body =>
    obtain ⟨left, same, flat, nested⟩ := replaceGroups_group readable.1 readable.2 body rest
    exact ⟨left, same, flat, fun closes => nested (Classical.not_not.mp closes)⟩

section
variable (readable : ∀ part ∈ parts, part.Readable)
include readable

private theorem path_free {d : Char} (special : d ∈ reserved) (other : d ≠ '\x7b' ∧ d ≠ '\x7d') :
    d ∉ parts.flatMap Part.path := by
  intro member
  obtain ⟨part, listed, shown⟩ := List.mem_flatMap.mp member
  exact (readable part listed).free special other shown

private theorem replaceGroups_flat (flat : ∀ part ∈ parts, part.Flat) :
    replaceGroups (parts.flatMap Part.pattern) = parts.flatMap Part.path := by
  induction parts with
  | nil => exact replaceGroups.eq_1
  | cons part rest ih =>
    obtain ⟨here, below⟩ := List.forall_mem_cons.mp readable
    obtain ⟨partFlat, restFlat⟩ := List.forall_mem_cons.mp flat
    obtain ⟨left, same, none, _⟩ := replaceGroups_part here (rest.flatMap Part.pattern)
    rw [List.flatMap_cons, List.flatMap_cons, same, none partFlat, ih below restFlat,
      List.append_nil]

/-- Every group leaves its placeholder. -/
theorem placeholders_kept :
    (parts.flatMap Part.path).count '\x7b' ≤
      (replaceGroups (parts.flatMap Part.pattern)).count '\x7b' := by
  induction parts with
  | nil => simp
  | cons part rest ih =>
    obtain ⟨here, below⟩ := List.forall_mem_cons.mp readable
    obtain ⟨left, same, _⟩ := replaceGroups_part here (rest.flatMap Part.pattern)
    have kept := ih below
    rw [List.flatMap_cons, List.flatMap_cons, same]
    simp only [List.count_append]
    omega

/-- What is left of a group is seen in the whole text. -/
theorem spoiled_of_nested (nested : ¬ ∀ part ∈ parts, part.Flat) :
    Spoiled (parts.flatMap Part.path) (replaceGroups (parts.flatMap Part.pattern)) := by
  induction parts with
  | nil => exact absurd (fun part member => nomatch member) nested
  | cons part rest ih =>
    obtain ⟨here, below⟩ := List.forall_mem_cons.mp readable
    obtain ⟨left, same, _, remains⟩ := replaceGroups_part here (rest.flatMap Part.pattern)
    have kept := placeholders_kept below
    rw [Spoiled, List.flatMap_cons, List.flatMap_cons, same]
    simp only [List.count_append, List.mem_append]
    by_cases partFlat : part.Flat
    · have restNested : ¬ ∀ part ∈ rest, part.Flat := fun flat =>
        nested (List.forall_mem_cons.mpr ⟨partFlat, flat⟩)
      rcases ih below restNested with closes | more
      · exact .inl (.inr closes)
      · right
        omega
    · rcases remains partFlat with closes | opens
      · exact .inl (.inl (.inr closes))
      · have extra := List.count_pos_iff.mpr opens
        right
        omega

end

private theorem Spoiled.unescape {path : List Char} (spoiled : Spoiled path text) :
    Spoiled path (unescape text) := by
  rw [Spoiled, ← List.count_pos_iff, count_unescape (by decide), count_unescape (by decide),
    List.count_pos_iff]
  exact spoiled

private theorem Spoiled.replaceConverters {path : List Char} (spoiled : Spoiled path text) :
    Spoiled path (replaceConverters text) := by
  have closing := count_replaceConverters (c := ')') (by decide) (by decide) text
  have opening := count_replaceConverters (c := '\x7b') (by decide) (by decide) text
  rw [Spoiled, ← List.count_pos_iff] at spoiled ⊢
  exact spoiled.imp (Nat.lt_of_lt_of_le · closing) (Nat.lt_of_lt_of_le · opening)

/-- Slashes at the ends do not mend a text. -/
theorem Spoiled.withSlashes_ne {path : List Char} (spoiled : Spoiled path text)
    (free : ')' ∉ path) : withSlashes text ≠ withSlashes path := by
  have slashes (c : Char) (other : c ≠ '/') (text : List Char) :
      (withSlashes text).count c = text.count c := by
    have opening : (lackedOpening text).count c = 0 := by
      rw [lackedOpening]
      split <;> simp [other.symm]
    have closing : (lackedClosing text).count c = 0 := by
      rw [lackedClosing]
      split <;> simp [other.symm]
    rw [withSlashes_eq, List.count_append, List.count_append, opening, closing, Nat.zero_add,
      Nat.add_zero]
  intro same
  rcases spoiled with closes | more
  · have counted := congrArg (List.count ')') same
    rw [slashes _ (by decide), slashes _ (by decide), List.count_eq_zero_of_not_mem free] at counted
    exact List.count_eq_zero.mp counted closes
  · have counted := congrArg (List.count '\x7b') same
    rw [slashes _ (by decide), slashes _ (by decide)] at counted
    omega

/-- A pattern becomes its path: each group as a whole is replaced by its placeholder, the text
stays, and only slashes that the path lacks are added. -/
def Replaced (parts : List Part) : Prop :=
  normalize (parts.flatMap Part.pattern) true =
    lackedOpening (parts.flatMap Part.path) ++ parts.flatMap Part.path ++
      lackedClosing (parts.flatMap Part.path)

instance (parts : List Part) : Decidable (Replaced parts) :=
  inferInstanceAs (Decidable (_ = _))

private theorem normalize_pattern (readable : ∀ part ∈ parts, part.Readable) :
    normalize (parts.flatMap Part.pattern) true =
      withSlashes (replaceConverters (unescape (replaceGroups (parts.flatMap Part.pattern)))) := by
  rw [normalize]
  simp only [if_true]
  rw [(edged_pattern readable).ofRegex]

private theorem replaced_iff_flat (readable : ∀ part ∈ parts, part.Readable) :
    Replaced parts ↔ ∀ part ∈ parts, part.Flat := by
  have free := @path_free parts readable
  rw [Replaced, ← withSlashes_eq, normalize_pattern readable]
  constructor
  · intro same
    by_contra nested
    have spoiled := (spoiled_of_nested readable nested).unescape.replaceConverters
    exact spoiled.withSlashes_ne (free (by decide) (by decide)) same
  · intro flat
    rw [replaceGroups_flat readable flat, unescape_free (free (by decide) (by decide)),
      replaceConverters_free (free (by decide) (by decide))]

/-- A pattern of plain text and named groups becomes its path exactly if no group has a
closing bracket in its body. Where the brackets of the bodies are balanced, this means that
no group has another one inside. -/
theorem named_groups_replaced_iff (readable : ∀ part ∈ parts, part.Readable) :
    (Replaced parts ↔ ∀ name body, .group name body ∈ parts → ')' ∉ body) ∧
      ((∀ name body, .group name body ∈ parts → Balanced body) →
        (Replaced parts ↔ ∀ name body, .group name body ∈ parts → '(' ∉ body)) := by
  have flat_iff : (∀ part ∈ parts, part.Flat) ↔
      ∀ name body, .group name body ∈ parts → ')' ∉ body := by
    constructor
    · exact fun flat name body listed => flat _ listed
    · rintro closed (chars | ⟨name, body⟩) listed
      · exact trivial
      · exact closed name body listed
  rw [replaced_iff_flat readable, flat_iff]
  refine ⟨Iff.rfl, fun balanced => ?_⟩
  refine forall_congr' fun name => forall_congr' fun body => forall_congr' fun listed => ?_
  exact not_congr (balanced name body listed).closes_iff

/-- The pattern of the orders of a user. -/
def userOrders : List Part :=
  [.text "users/".toList, .group "user".toList "[0-9]+".toList, .text "/orders/".toList,
    .group "order".toList "\\w+".toList]

theorem user_orders_replaced : (∀ part ∈ userOrders, part.Readable) ∧ Replaced userOrders := by
  have readable : ∀ part ∈ userOrders, part.Readable := by decide
  refine ⟨readable, (named_groups_replaced_iff readable).1.mpr ?_⟩
  intro name body listed
  simp only [userOrders, List.mem_cons, List.not_mem_nil, Part.group.injEq, reduceCtorEq, or_false,
    false_or] at listed
  rcases listed with ⟨_, rfl⟩ | ⟨_, rfl⟩ <;> decide

/-- A group for one of two words. -/
def slugGroup : List Part := [.group "slug".toList "(new|old)".toList]

/-- The closing bracket of the outer group is left in the path. -/
theorem slug_group_left_over : (∀ part ∈ slugGroup, part.Readable) ∧
    Balanced "(new|old)".toList ∧ ¬ Replaced slugGroup ∧
      normalize (slugGroup.flatMap Part.pattern) true = "/\x7bslug\x7d)/".toList := by
  have inner : Balanced "new|old".toList := balanced_of_free (by decide) (by decide)
  refine ⟨by decide, .group inner .nil, ?_⟩
  decide +kernel

end ApiScribe.Route
